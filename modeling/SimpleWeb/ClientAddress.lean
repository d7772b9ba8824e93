/-
**Where a client connects to.**

The constructor of `SocketClientBase` cuts its argument `host[:port][/path]` at the first slash, and
`parse_host_port` cuts what is in front of that at the first colon; it does the same with the address
of a proxy.  The port goes through `stoul`, whose exceptions give the default port, and through a
cast to 16 bits, which gives the number modulo `2 ^ 16` where it should give the default port as
well.

Main definitions:

* `SimpleWeb.Client.parseHostPort`, `SimpleWeb.Client.socketClientBase`,
  `SimpleWeb.Client.connectHostPort` — the address, and what `connect` resolves;
* `SimpleWeb.Client.denotedPort`, `SimpleWeb.Client.KeepsPort` — the port that an address should
  give, and when it does.

Main results:

* `SimpleWeb.Client.parseHostPort_write` — what becomes of a host and a port;
* `SimpleWeb.Client.splits_address_iff` — **which addresses are split correctly**.
-/

import SimpleWeb.Cut
import SimpleWeb.Upgrade

set_option relaxedAutoImplicit false
set_option autoImplicit false

namespace SimpleWeb.Client

/-! ### The address -/

/-- `parse_host_port`.  Whatever is thrown in the `try` block, the port is the default port. -/
def parseHostPort (hostPort : Bytes) (defaultPort : UInt16) : Except Fault (Bytes × UInt16) :=
  match find hostPort 58 0 with
  | none => .ok (hostPort, defaultPort)
  | some hostEnd => do
      let host ← substr hostPort 0 hostEnd
      let converted :=
        (substr hostPort (hostEnd + 1) hostPort.length).toOption.bind (strtoull 10)
      return (host, (converted.map UInt64.toUInt16).getD defaultPort)

/-- The constructor of `SocketClientBase`. -/
def socketClientBase (hostPortPath : Bytes) (defaultPort : UInt16) : Except Fault Address := do
  let hostPortEnd := find hostPortPath 47 0
  let front ← substr hostPortPath 0 (hostPortEnd.getD hostPortPath.length)
  let hostPort ← parseHostPort front defaultPort
  let path ← match hostPortEnd with
    | some hostPortEnd => substr hostPortPath hostPortEnd hostPortPath.length
    | none => .ok (ascii "/")
  return ⟨hostPort.1, hostPort.2, defaultPort, path⟩

/-- The host and the port that `connect` resolves. -/
def connectHostPort (config : Config) (a : Address) : Except Fault (Bytes × Bytes) :=
  if config.proxyServer = [] then .ok (a.host, toDecimal a.port.toNat)
  else do
    let proxyHostPort ← parseHostPort config.proxyServer 8080
    return (proxyHostPort.1, toDecimal proxyHostPort.2.toNat)

/-! ### What an address says -/

/-- A host has no delimiter in it. -/
structure IsHost (host : Bytes) : Prop where
  ne_nil : host ≠ []
  slash : 47 ∉ host
  colon : 58 ∉ host

/-- A port is written in decimal digits. -/
structure IsPort (digits : Bytes) : Prop where
  ne_nil : digits ≠ []
  digits : ∀ c ∈ digits, isDigit 10 c = true

instance : DecidablePred IsHost := fun host =>
  decidable_of_iff (host ≠ [] ∧ 47 ∉ host ∧ 58 ∉ host)
    ⟨fun ⟨h₁, h₂, h₃⟩ => ⟨h₁, h₂, h₃⟩, fun ⟨h₁, h₂, h₃⟩ => ⟨h₁, h₂, h₃⟩⟩

instance : DecidablePred IsPort := fun digits =>
  decidable_of_iff (digits ≠ [] ∧ digits.all (isDigit 10) = true)
    ⟨fun ⟨h₁, h₂⟩ => ⟨h₁, List.all_eq_true.1 h₂⟩, fun ⟨h₁, h₂⟩ => ⟨h₁, List.all_eq_true.2 h₂⟩⟩

/-- `host` or `host:port`. -/
def writeHostPort (host : Bytes) (port : Option Bytes) : Bytes := Cut.join 58 host port

/-- The same, or with a slash and a path behind it. -/
def writeAddress (host : Bytes) (port path : Option Bytes) : Bytes :=
  Cut.join 47 (writeHostPort host port) path

/-- The port that should be taken: the number, if it is one of a port, and otherwise the default. -/
def denotedPort (defaultPort : UInt16) : Option Bytes → UInt16
  | none => defaultPort
  | some digits =>
      if digitsValue 10 digits < 2 ^ 16 then UInt16.ofNat (digitsValue 10 digits) else defaultPort

/-- The path that should be asked for. -/
def denotedPath : Option Bytes → Bytes
  | none => ascii "/"
  | some path => 47 :: path

/-- The number is one of a port, or too large for `stoul`, or it happens to be the default port modulo
`2 ^ 16`. -/
def KeepsPort (defaultPort : UInt16) (digits : Bytes) : Prop :=
  digitsValue 10 digits < 2 ^ 16 ∨ 2 ^ 64 ≤ digitsValue 10 digits ∨
    digitsValue 10 digits % 2 ^ 16 = defaultPort.toNat

/-! ### Splitting -/

variable {host digits : Bytes} {port path : Option Bytes} {defaultPort : UInt16}

/-- The port that is taken: the number modulo `2 ^ 16`, if `stoul` can read it. -/
def takenPort (defaultPort : UInt16) : Option Bytes → UInt16
  | none => defaultPort
  | some digits =>
      if digitsValue 10 digits < 2 ^ 64 then UInt16.ofNat (digitsValue 10 digits) else defaultPort

/-- **A host and a port are taken apart**, and the host is kept. -/
theorem parseHostPort_write (hhost : 58 ∉ host) (hport : ∀ digits ∈ port, IsPort digits)
    (defaultPort : UInt16) :
    parseHostPort (writeHostPort host port) defaultPort = .ok (host, takenPort defaultPort port) := by
  cases port with
  | none => simp [parseHostPort, writeHostPort, find_eq_none hhost, takenPort]
  | some digits =>
      have hdigits := hport digits rfl
      have hwritten : writeHostPort host (some digits) = [] ++ (host ++ 58 :: digits) := rfl
      have hport' : writeHostPort host (some digits) = (host ++ [58]) ++ (digits ++ []) := by
        simp [writeHostPort]
      have hhostOut : substr (writeHostPort host (some digits)) 0 host.length = .ok host := by
        rw [hwritten]
        exact substr_append [] host _ rfl rfl
      have hportOut : substr (writeHostPort host (some digits)) (host.length + 1)
          (writeHostPort host (some digits)).length = .ok digits := by
        rw [substr_of_le (by simp [writeHostPort]), hport', List.drop_left' (by simp),
          List.append_nil, List.take_of_length_le (by simp; omega)]
      have hread := @strtoull_append 10 (by omega) digits hdigits.ne_nil hdigits.digits [] nofun
      rw [List.append_nil] at hread
      have hfind : find (writeHostPort host (some digits)) 58 0 = some host.length :=
        find_append hhost digits
      simp only [parseHostPort, hfind, hhostOut, hportOut, ok_bind, Except.toOption,
        Option.bind_some, hread, takenPort, pure_eq_ok]
      split
      · next hsmall =>
          rw [Option.map_some, Option.getD_some]
          congr 2
          apply UInt16.toNat_inj.1
          rw [UInt64.toNat_toUInt16, UInt64.toNat_ofNat', UInt16.toNat_ofNat',
            Nat.mod_eq_of_lt hsmall]
      · rfl

/-- An address is cut at its first slash. -/
theorem socketClientBase_write (hhost : IsHost host) (hport : ∀ digits ∈ port, IsPort digits)
    (path : Option Bytes) (defaultPort : UInt16) :
    socketClientBase (writeAddress host port path) defaultPort =
      .ok ⟨host, takenPort defaultPort port, defaultPort, denotedPath path⟩ := by
  have hslash : 47 ∉ writeHostPort host port := by
    cases port with
    | none => exact hhost.slash
    | some digits =>
        have hdigits := hport digits rfl
        simp only [writeHostPort, Cut.join_some, List.mem_append, List.mem_cons, not_or]
        refine ⟨hhost.slash, by decide, fun hmem => ?_⟩
        exact absurd (hdigits.digits 47 hmem) (by decide)
  have hparse := parseHostPort_write hhost.colon hport defaultPort
  cases path with
  | none =>
      have hfront : substr (writeHostPort host port) 0 (writeHostPort host port).length =
          .ok (writeHostPort host port) := by
        rw [substr_of_le (Nat.zero_le _), List.drop_zero, List.take_length]
      simp only [socketClientBase, writeAddress, Cut.join_none, find_eq_none hslash,
        Option.getD_none, hfront, hparse, ok_bind, denotedPath, pure_eq_ok]
  | some path =>
      have hfind : find (writeAddress host port (some path)) 47 0 =
          some (writeHostPort host port).length := find_append hslash path
      have hfront : substr (writeAddress host port (some path)) 0 (writeHostPort host port).length =
          .ok (writeHostPort host port) := substr_append [] _ _ rfl rfl
      have hpath : substr (writeAddress host port (some path)) (writeHostPort host port).length
          (writeAddress host port (some path)).length = .ok (47 :: path) := by
        rw [substr_of_le (by simp [writeAddress]), writeAddress, Cut.join_some, List.drop_left,
          List.take_of_length_le (by simp)]
      simp only [socketClientBase, hfind, Option.getD_some, hfront, hparse, hpath, ok_bind,
        denotedPath, pure_eq_ok]

/-- **When the port that is taken is the one that is denoted.** -/
theorem takenPort_eq_iff (defaultPort : UInt16) (port : Option Bytes) :
    takenPort defaultPort port = denotedPort defaultPort port ↔
      ∀ digits ∈ port, KeepsPort defaultPort digits := by
  cases port with
  | none => simp [takenPort, denotedPort]
  | some digits =>
      have hlt := defaultPort.toNat_lt
      simp only [takenPort, denotedPort, Option.mem_some_iff, forall_eq', KeepsPort]
      by_cases hport : digitsValue 10 digits < 2 ^ 16
      · rw [if_pos hport, if_pos (by omega)]
        exact iff_of_true rfl (Or.inl hport)
      · rw [if_neg hport]
        by_cases hread : digitsValue 10 digits < 2 ^ 64
        · rw [if_pos hread, ← UInt16.toNat_inj, UInt16.toNat_ofNat']
          constructor
          · exact fun h => Or.inr (Or.inr h)
          · rintro (h | h | h)
            · exact absurd h hport
            · omega
            · exact h
        · rw [if_neg hread]
          exact iff_of_true rfl (Or.inr (Or.inl (by omega)))

/-- **Which addresses are split correctly**: those without a port, and those whose port is in range, too
large for `stoul`, or the default port modulo `2 ^ 16`.  The same holds for the address of a proxy,
whose default port is 8080. -/
theorem splits_address_iff (hhost : IsHost host) (hport : ∀ digits ∈ port, IsPort digits) :
    (∀ path defaultPort, socketClientBase (writeAddress host port path) defaultPort =
        .ok ⟨host, denotedPort defaultPort port, defaultPort, denotedPath path⟩ ↔
      ∀ digits ∈ port, KeepsPort defaultPort digits) ∧
    (∀ defaultPort, parseHostPort (writeHostPort host port) defaultPort =
        .ok (host, denotedPort defaultPort port) ↔
      ∀ digits ∈ port, KeepsPort defaultPort digits) ∧
    ∀ (config : Config) (a : Address), config.proxyServer = writeHostPort host port →
      (connectHostPort config a = .ok (host, toDecimal (denotedPort 8080 port).toNat) ↔
        ∀ digits ∈ port, KeepsPort 8080 digits) := by
  refine ⟨?_, ?_, ?_⟩
  · intro path defaultPort
    rw [socketClientBase_write hhost hport, ← takenPort_eq_iff]
    simp
  · intro defaultPort
    rw [parseHostPort_write hhost.colon hport, ← takenPort_eq_iff]
    simp
  · intro config a hproxy
    have hne : config.proxyServer ≠ [] := by
      obtain ⟨t, ht⟩ := Cut.exists_join_eq_append 58 host port
      rw [hproxy, writeHostPort, ht]
      simp [hhost.ne_nil]
    rw [connectHostPort, if_neg hne, hproxy, parseHostPort_write hhost.colon hport, ok_bind,
      ← takenPort_eq_iff, pure_eq_ok, Except.ok.injEq, Prod.mk.injEq, toDecimal_inj,
      UInt16.toNat_inj, and_iff_right rfl]

/-- An address with a port and a path. -/
theorem splits_address_iff_chat :
    (∀ path defaultPort, socketClientBase (writeAddress (ascii "localhost") (some (ascii "8080")) path)
        defaultPort =
      .ok ⟨ascii "localhost", denotedPort defaultPort (some (ascii "8080")), defaultPort,
        denotedPath path⟩ ↔
      ∀ digits ∈ some (ascii "8080"), KeepsPort defaultPort digits) ∧
    (∀ defaultPort, parseHostPort (writeHostPort (ascii "localhost") (some (ascii "8080"))) defaultPort =
        .ok (ascii "localhost", denotedPort defaultPort (some (ascii "8080"))) ↔
      ∀ digits ∈ some (ascii "8080"), KeepsPort defaultPort digits) ∧
    ∀ (config : Config) (a : Address),
      config.proxyServer = writeHostPort (ascii "localhost") (some (ascii "8080")) →
      (connectHostPort config a = .ok (ascii "localhost",
          toDecimal (denotedPort 8080 (some (ascii "8080"))).toNat) ↔
        ∀ digits ∈ some (ascii "8080"), KeepsPort 8080 digits) :=
  splits_address_iff (by decide) (by decide +kernel)

/-- The port 65537, which is taken for 1. -/
theorem port_wraps :
    ascii "localhost:65537/chat" =
      writeAddress (ascii "localhost") (some (ascii "65537")) (some (ascii "chat")) ∧
    socketClientBase (ascii "localhost:65537/chat") 80 =
      .ok ⟨ascii "localhost", 1, 80, ascii "/chat"⟩ ∧
    ¬ socketClientBase (ascii "localhost:65537/chat") 80 =
      .ok ⟨ascii "localhost", denotedPort 80 (some (ascii "65537")), 80, ascii "/chat"⟩ := by
  have haddress : ascii "localhost:65537/chat" =
      writeAddress (ascii "localhost") (some (ascii "65537")) (some (ascii "chat")) := by decide
  have hsplit := @socketClientBase_write (ascii "localhost") (some (ascii "65537")) (by decide)
    (by decide +kernel) (some (ascii "chat")) 80
  have htaken : takenPort 80 (some (ascii "65537")) = 1 := by decide +kernel
  rw [← haddress, htaken] at hsplit
  refine ⟨haddress, hsplit, ?_⟩
  intro h
  rw [hsplit] at h
  obtain ⟨-, hdenoted, -⟩ := Address.mk.inj (Except.ok.inj h)
  revert hdenoted
  decide +kernel

end SimpleWeb.Client
