import SpartanX.DnsLookup
import SpartanX.Server

/-!
# `Constructors` — what the constructors of sockets and servers report

A constructor of `SXSocket.c` records an error with `ERR_RET` and goes on. Behind its last step it records success,
or, if it looked up a host name, returns the null pointer. So an error reaches the caller only if nothing is recorded
behind it, and no socket that was looked up does; and the error for a domain that is not accepted is no call's at all
(`constructors_report_iff`).

Each model function returns the values assigned to `*err_ret`, in order, and the pointer; `none` where the process
crashes. `Steps` lists the calls that the constructor made and which error goes with each.
-/

namespace SpartanX

open CInt

/-! ## The functions -/

/-- `SXCreateClientSocket`; `inetPton` is what `inet_pton` makes of the text for a family, if it is an address. -/
def sxCreateClientSocket (calls : SocketCalls) (inetPton : AddressFamily → Option (BitVec 128)) (port : BitVec 16)
    (domain : AddressFamily) (type : SocketType) (protocol : IntT) : Option (List SXError × Option Socket) :=
  let writes := errRet [] (!calls.calloc) sxErrorMemAlloc
  -- after a failed allocation the next statement writes through the `NULL` pointer
  if calls.calloc = false then none
  else
    let sockPtr : Socket :=
      { domain := domain, type := type, protocol := protocol
        obj := sxObjInit {} .freeSocket, sockfd := calls.socket.getD (-1) }
    let writes := errRet writes calls.socket.isNone sxErrorSysSocket
    let finish (addr : SockAddr) : Option (List SXError × Option Socket) :=
      let writes := errRet writes (!calls.noSigpipe) sxErrorSysSetsockopt
      some (errRet writes true sxSuccess, some { sockPtr with addr := { addr with family := domain } })
    match domain with
    | .inet  => finish { port := htons port, len := 16, host := (inetPton .inet).getD 0 }
    | .inet6 => finish { port := htons port, len := 28, host := (inetPton .inet6).getD 0 }
    | _      => some (errRet writes true sxErrorInvalidIpaddr, none)

/-- `SXCreateClientSocketByHostname`, with what `getaddrinfo` and `getservbyname` return for the host and the
    service. -/
def sxCreateClientSocketByHostname (calls : SocketCalls) (info : Option (List AddrInfo))
    (service : Option (BitVec 16)) : Option (List SXError × Option Socket) :=
  -- the pointer is not tested before `sx_obj_init` writes through it
  if calls.calloc = false then none
  else
    match dnsLookup info service { obj := sxObjInit {} .freeSocket } with
    | .ok (err, _) =>
      let writes := [err]
      let writes := errRet writes calls.socket.isNone sxErrorSysSocket
      let writes := errRet writes (!calls.noSigpipe) sxErrorSysSetsockopt
      -- return SX_SUCCESS, which is the null pointer
      some (writes, none)
    | _ => none

/-- `SXCreateServer` with the allocation of the structure itself, whose result is not tested. -/
def sxCreateServerAlloc (calloc : Bool) (calls : SocketCalls) (setup : ServerSetup) (msgHandl : Bool) :
    Option CreatedServer :=
  if calloc then sxCreateServer calls setup msgHandl else none

/-! ## The rule -/

/-- The domain is one of the two a constructor accepts. -/
def AddressFamily.Accepted (domain : AddressFamily) : Prop := domain = .inet ∨ domain = .inet6

instance (domain : AddressFamily) : Decidable domain.Accepted := inferInstanceAs (Decidable (_ ∨ _))

/-- The calls of a constructor in order: whether each succeeded, and the error that goes with it. -/
abbrev Steps := List (Bool × SXError)

/-- Every call succeeded. -/
def Steps.Succeeded (steps : Steps) : Prop := ∀ s ∈ steps, s.1 = true

instance (steps : Steps) : Decidable steps.Succeeded := inferInstanceAs (Decidable (∀ s ∈ steps, _))

/-- The errors of the calls that failed. -/
def Steps.errors (steps : Steps) : List SXError := (steps.filter fun s => !s.1).map (·.2)

/-- The rule: the constructor returns, and reports success with a socket if every call succeeded, and otherwise the
    error of a call that failed, with the null pointer. -/
def Reports (steps : Steps) (outcome : Option (List SXError × Option Socket)) : Prop :=
  ∃ writes sock err, outcome = some (writes, sock) ∧ writes.getLast? = some err ∧
    ((err = sxSuccess ∧ sock.isSome = true) ↔ steps.Succeeded) ∧
    (¬ steps.Succeeded → err ∈ steps.errors ∧ sock = none)

/-- The calls of `SXCreateServerSocket`: the allocation and `socket`, and with an accepted domain those of
    `setsockopt` and `bind`. -/
def serverSteps (calls : SocketCalls) (domain : AddressFamily) : Steps :=
  [(calls.calloc, sxErrorMemAlloc), (calls.socket.isSome, sxErrorSysSocket)] ++
  if domain.Accepted then
    [(calls.reuseAddr, sxErrorSysSetsockopt), (calls.noSigpipe, sxErrorSysSetsockopt), (calls.bind, sxErrorSysBind)]
  else []

/-- The calls of `SXCreateClientSocket`. -/
def clientSteps (calls : SocketCalls) (domain : AddressFamily) : Steps :=
  [(calls.calloc, sxErrorMemAlloc), (calls.socket.isSome, sxErrorSysSocket)] ++
  if domain.Accepted then [(calls.noSigpipe, sxErrorSysSetsockopt)] else []

/-- The calls of `SXCreateClientSocketByHostname`. -/
def hostnameSteps (calls : SocketCalls) (info : Option (List AddrInfo)) : Steps :=
  [(calls.calloc, sxErrorMemAlloc), (info.isSome, sxErrorSysGetAddrInfo), (calls.socket.isSome, sxErrorSysSocket),
    (calls.noSigpipe, sxErrorSysSetsockopt)]

section Reports

variable {steps : Steps} {writes : List SXError} {sock : Socket} {err : SXError} {calls : SocketCalls}
  {inetPton : AddressFamily → Option (BitVec 128)} {port : BitVec 16} {domain : AddressFamily} {type : SocketType}
  {protocol : IntT} {info : Option (List AddrInfo)} {service : Option (BitVec 16)}

/-- If there is an error, a call failed. -/
theorem Steps.not_succeeded_of_mem_errors (h : err ∈ steps.errors) : ¬ steps.Succeeded := by
  intro hall
  obtain ⟨s, hs, _⟩ := List.mem_map.mp h
  obtain ⟨hmem, hfailed⟩ := List.mem_filter.mp hs
  rw [hall s hmem] at hfailed
  cases hfailed

/-- A crash is no report. -/
theorem not_reports_none : ¬ Reports steps none := by
  rintro ⟨_, _, _, h, _⟩
  cases h

/-- A constructor that ends with success follows the rule iff every call succeeded. -/
theorem reports_success_iff : Reports steps (some (writes ++ [sxSuccess], some sock)) ↔ steps.Succeeded := by
  constructor
  · rintro ⟨writes', sock', err, hout, hlast, hiff, _⟩
    cases hout
    rw [List.getLast?_concat] at hlast
    exact hiff.mp ⟨(Option.some.inj hlast).symm, rfl⟩
  · intro hall
    refine ⟨_, _, sxSuccess, rfl, List.getLast?_concat, ?_, ?_⟩
    · exact ⟨fun _ => hall, fun _ => ⟨rfl, rfl⟩⟩
    · intro hnot
      exact absurd hall hnot

/-- One that ends with an error and the null pointer follows it iff a call failed with this error. -/
theorem reports_error_iff (hlast : writes.getLast? = some err) (herr : err ≠ sxSuccess) :
    Reports steps (some (writes, none)) ↔ err ∈ steps.errors := by
  constructor
  · rintro ⟨writes', sock', err', hout, hlast', hiff, hfailed⟩
    cases hout
    rw [hlast] at hlast'
    cases hlast'
    have hnot : ¬ steps.Succeeded := fun hall => absurd (hiff.mpr hall).1 herr
    exact (hfailed hnot).1
  · intro hmem
    have hnot := Steps.not_succeeded_of_mem_errors hmem
    refine ⟨_, _, err, rfl, hlast, ?_, fun _ => ⟨hmem, rfl⟩⟩
    constructor
    · rintro ⟨_, hsome⟩
      cases hsome
    · intro hall
      exact absurd hall hnot

/-- With an accepted domain the server socket ends with success. -/
theorem sxCreateServerSocket_accepted (port : BitVec 16) (type : SocketType) (protocol : IntT)
    (hcalloc : calls.calloc = true) (hdomain : domain.Accepted) :
    ∃ writes sock, sxCreateServerSocket calls port domain type protocol =
      some (writes ++ [sxSuccess], some sock) := by
  rcases hdomain with rfl | rfl <;> simp [sxCreateServerSocket, hcalloc, errRet]

/-- With any other it ends with that error. -/
theorem sxCreateServerSocket_rejected (port : BitVec 16) (type : SocketType) (protocol : IntT)
    (hcalloc : calls.calloc = true) (hdomain : ¬ domain.Accepted) :
    ∃ writes, sxCreateServerSocket calls port domain type protocol =
      some (writes ++ [sxErrorInvalidIpaddr], none) := by
  unfold AddressFamily.Accepted at hdomain
  cases domain <;> simp_all [sxCreateServerSocket, errRet]

theorem sxCreateClientSocket_accepted (inetPton : AddressFamily → Option (BitVec 128)) (port : BitVec 16)
    (type : SocketType) (protocol : IntT) (hcalloc : calls.calloc = true) (hdomain : domain.Accepted) :
    ∃ writes sock, sxCreateClientSocket calls inetPton port domain type protocol =
        some (writes ++ [sxSuccess], some sock) ∧
      sock.obj = { refCount := 1, dealloc := .freeSocket } := by
  rcases hdomain with rfl | rfl <;> simp [sxCreateClientSocket, hcalloc, errRet, sxObjInit]

theorem sxCreateClientSocket_rejected (inetPton : AddressFamily → Option (BitVec 128)) (port : BitVec 16)
    (type : SocketType) (protocol : IntT) (hcalloc : calls.calloc = true) (hdomain : ¬ domain.Accepted) :
    ∃ writes, sxCreateClientSocket calls inetPton port domain type protocol =
      some (writes ++ [sxErrorInvalidIpaddr], none) := by
  unfold AddressFamily.Accepted at hdomain
  cases domain <;> simp_all [sxCreateClientSocket, errRet]

theorem serverSocket_reports_iff :
    Reports (serverSteps calls domain) (sxCreateServerSocket calls port domain type protocol) ↔
      calls.calloc = true ∧ domain.Accepted ∧ calls.socket.isSome = true ∧ calls.reuseAddr = true ∧
        calls.noSigpipe = true ∧ calls.bind = true := by
  cases hcalloc : calls.calloc with
  | false =>
      have hnone : sxCreateServerSocket calls port domain type protocol = none := by
        simp [sxCreateServerSocket, hcalloc]
      rw [hnone]
      constructor
      · intro h
        exact absurd h not_reports_none
      · rintro ⟨h, _⟩
        cases h
  | true =>
      by_cases hdomain : domain.Accepted
      · obtain ⟨writes, sock, hok⟩ := sxCreateServerSocket_accepted port type protocol hcalloc hdomain
        rw [hok, reports_success_iff]
        simp [Steps.Succeeded, serverSteps, hcalloc, hdomain]
      · obtain ⟨writes, hok⟩ := sxCreateServerSocket_rejected port type protocol hcalloc hdomain
        rw [hok]
        -- no call has the error that is reported
        have hno : sxErrorInvalidIpaddr ∉ (serverSteps calls domain).errors := by
          simp [Steps.errors, serverSteps, hdomain, hcalloc, sxErrorInvalidIpaddr, sxErrorSysSocket]
        constructor
        · intro h
          exact absurd ((reports_error_iff List.getLast?_concat (by decide)).mp h) hno
        · rintro ⟨_, h, _⟩
          exact absurd h hdomain

theorem clientSocket_reports_iff :
    Reports (clientSteps calls domain) (sxCreateClientSocket calls inetPton port domain type protocol) ↔
      calls.calloc = true ∧ domain.Accepted ∧ calls.socket.isSome = true ∧ calls.noSigpipe = true := by
  cases hcalloc : calls.calloc with
  | false =>
      have hnone : sxCreateClientSocket calls inetPton port domain type protocol = none := by
        simp [sxCreateClientSocket, hcalloc]
      rw [hnone]
      constructor
      · intro h
        exact absurd h not_reports_none
      · rintro ⟨h, _⟩
        cases h
  | true =>
      by_cases hdomain : domain.Accepted
      · obtain ⟨writes, sock, hok, _⟩ := sxCreateClientSocket_accepted inetPton port type protocol hcalloc hdomain
        rw [hok, reports_success_iff]
        simp [Steps.Succeeded, clientSteps, hcalloc, hdomain]
      · obtain ⟨writes, hok⟩ := sxCreateClientSocket_rejected inetPton port type protocol hcalloc hdomain
        rw [hok]
        have hno : sxErrorInvalidIpaddr ∉ (clientSteps calls domain).errors := by
          simp [Steps.errors, clientSteps, hdomain, hcalloc, sxErrorInvalidIpaddr, sxErrorSysSocket]
        constructor
        · intro h
          exact absurd ((reports_error_iff List.getLast?_concat (by decide)).mp h) hno
        · rintro ⟨_, h, _⟩
          exact absurd h hdomain

/-- The lookup of a host name returns: there is no list or an empty one, or the service is found and a usable entry
    stands behind the first one. -/
def LookupReturns (info : Option (List AddrInfo)) (service : Option (BitVec 16)) : Prop :=
  ∀ list, info = some list → list = [] ∨ (service.isSome = true ∧ (firstUsable list.tail).isSome = true)

/-- What the lookup then reports. -/
theorem dnsLookup_of_returns (socket : Socket) (h : LookupReturns info service) :
    ∃ socket', dnsLookup info service socket =
      .ok (if info.isSome then sxSuccess else sxErrorSysGetAddrInfo, socket') := by
  cases info with
  | none => exact ⟨socket, rfl⟩
  | some list =>
      rcases h list rfl with rfl | ⟨hservice, hfound⟩
      · exact ⟨socket, rfl⟩
      · obtain ⟨sPort, rfl⟩ := Option.isSome_iff_exists.mp hservice
        obtain ⟨e, he⟩ := Option.isSome_iff_exists.mp hfound
        cases list with
        | nil => exact ⟨socket, rfl⟩
        | cons first rest =>
            rw [List.tail_cons] at he
            refine ⟨recordedC sPort socket e, ?_⟩
            unfold dnsLookup
            dsimp only
            rw [dnsLookupLoop_cons, he]
            rfl

/-- Otherwise it crashes. -/
theorem dnsLookup_of_not_returns (socket : Socket) (h : ¬ LookupReturns info service) :
    dnsLookup info service socket = .fault := by
  unfold LookupReturns at h
  simp only [not_forall, not_or] at h
  obtain ⟨list, rfl, hne, hnot⟩ := h
  obtain ⟨first, rest, rfl⟩ := List.exists_cons_of_ne_nil hne
  unfold dnsLookup
  dsimp only
  cases service with
  | none => rfl
  | some sPort =>
      rw [dnsLookupLoop_cons]
      rw [List.tail_cons] at hnot
      cases hrest : firstUsable rest with
      | none => rfl
      | some e => exact absurd ⟨rfl, by rw [hrest]; rfl⟩ hnot

theorem hostname_reports_iff :
    Reports (hostnameSteps calls info) (sxCreateClientSocketByHostname calls info service) ↔
      calls.calloc = true ∧ LookupReturns info service ∧
        (info = none ∨ calls.socket = none ∨ calls.noSigpipe = false) := by
  cases hcalloc : calls.calloc with
  | false =>
      have hnone : sxCreateClientSocketByHostname calls info service = none := by
        simp [sxCreateClientSocketByHostname, hcalloc]
      rw [hnone]
      constructor
      · intro h
        exact absurd h not_reports_none
      · rintro ⟨h, _⟩
        cases h
  | true =>
      by_cases hreturns : LookupReturns info service
      · obtain ⟨socket', hlookup⟩ := dnsLookup_of_returns { obj := sxObjInit {} .freeSocket } hreturns
        have hout : sxCreateClientSocketByHostname calls info service =
            some (errRet (errRet [if info.isSome then sxSuccess else sxErrorSysGetAddrInfo] calls.socket.isNone
              sxErrorSysSocket) (!calls.noSigpipe) sxErrorSysSetsockopt, none) := by
          unfold sxCreateClientSocketByHostname
          rw [hcalloc, if_neg (by decide), hlookup]
        rw [hout]
        cases hsig : calls.noSigpipe with
        | false =>
            constructor
            · intro _
              exact ⟨rfl, hreturns, Or.inr (Or.inr rfl)⟩
            · intro _
              apply (reports_error_iff List.getLast?_concat (by decide)).mpr
              simp [Steps.errors, hostnameSteps, hsig]
        | true =>
            cases hsock : calls.socket with
            | none =>
                constructor
                · intro _
                  exact ⟨rfl, hreturns, Or.inr (Or.inl rfl)⟩
                · intro _
                  apply (reports_error_iff List.getLast?_concat (by decide)).mpr
                  simp [Steps.errors, hostnameSteps, hsock]
            | some fd =>
                cases hinfo : info with
                | none =>
                    constructor
                    · intro _
                      exact ⟨rfl, hinfo ▸ hreturns, Or.inl rfl⟩
                    · intro _
                      have herr : sxErrorSysGetAddrInfo ∈ (hostnameSteps calls none).errors := by
                        simp [Steps.errors, hostnameSteps]
                      exact (reports_error_iff rfl (by decide)).mpr herr
                | some list =>
                    constructor
                    · rintro ⟨writes, sock, err, hsome, _, hiff, _⟩
                      -- every call succeeded, but the pointer is null
                      have hall : (hostnameSteps calls (some list)).Succeeded := by
                        simp [Steps.Succeeded, hostnameSteps, hcalloc, hsig, hsock]
                      cases hsome
                      exact absurd (hiff.mpr hall).2 (by decide)
                    · rintro ⟨_, _, h | h | h⟩ <;> cases h
      · have hnone : sxCreateClientSocketByHostname calls info service = none := by
          unfold sxCreateClientSocketByHostname
          rw [hcalloc, if_neg (by decide), dnsLookup_of_not_returns _ hreturns]
        rw [hnone]
        constructor
        · intro h
          exact absurd h not_reports_none
        · rintro ⟨_, h, _⟩
          exact absurd h hreturns

/-- `SXCreateServer` crashes iff one of the two allocations fails. -/
theorem sxCreateServerAlloc_isSome {calloc : Bool} {setup : ServerSetup} {msgHandl : Bool} :
    (sxCreateServerAlloc calloc calls setup msgHandl).isSome = true ↔ calloc = true ∧ calls.calloc = true := by
  unfold sxCreateServerAlloc
  cases calloc with
  | false => simp
  | true =>
      cases hcalloc : calls.calloc with
      | false => simp [sxCreateServer, sxCreateServerSocket, hcalloc]
      | true =>
          -- the domain is one of the two that are accepted
          have hdomain : (if setup.domain = 1 then AddressFamily.inet else .inet6).Accepted := by
            split
            · exact Or.inl rfl
            · exact Or.inr rfl
          obtain ⟨writes, sock, hok⟩ :=
            sxCreateServerSocket_accepted (setup.port.setWidth 16) .stream 0 hcalloc hdomain
          have hsome : (sxCreateServer calls setup msgHandl).isSome = true := by
            unfold sxCreateServer
            dsimp only
            rw [hok]
            dsimp only
            split <;> rfl
          simp [hsome]

/-- A created server is freed iff an error is reported. -/
theorem createServer_reports {calloc : Bool} {setup : ServerSetup} {msgHandl : Bool} {c : CreatedServer}
    (h : sxCreateServerAlloc calloc calls setup msgHandl = some c) : c.freed = false ↔ c.err = sxSuccess := by
  unfold sxCreateServerAlloc sxCreateServer at h
  dsimp only at h
  split at h
  · split at h
    · cases h
    · split at h
      · next hne =>
          cases h
          constructor
          · intro hfreed
            cases hfreed
          · intro herr
            exact absurd herr hne
      · cases h
        exact ⟨fun _ => rfl, fun _ => rfl⟩
  · cases h

/-- So a server is created as the rule says iff both allocations succeed. -/
theorem createServer_reports_iff {calloc : Bool} {setup : ServerSetup} {msgHandl : Bool} :
    (∃ c, sxCreateServerAlloc calloc calls setup msgHandl = some c ∧ (c.freed = false ↔ c.err = sxSuccess)) ↔
      calloc = true ∧ calls.calloc = true := by
  have hsome : (sxCreateServerAlloc calloc calls setup msgHandl).isSome = true ↔
      calloc = true ∧ calls.calloc = true := sxCreateServerAlloc_isSome
  rw [← hsome, Option.isSome_iff_exists]
  constructor
  · rintro ⟨c, hc, _⟩
    exact ⟨c, hc⟩
  · rintro ⟨c, hc⟩
    exact ⟨c, hc, createServer_reports hc⟩

end Reports

/-- **When constructors report failures.** The server and the client socket report what the rule says iff the domain
    is accepted and every call succeeds: of a call that fails the error is overwritten, behind a failed allocation the
    process crashes, and for any other domain the error is not that of a call. The socket that looks up a host name
    reports it iff the allocation succeeds, the lookup returns, and a call fails: it never returns a socket. A server
    is returned, and is then freed iff an error is reported, iff the two allocations succeed. -/
theorem constructors_report_iff (calls : SocketCalls) (inetPton : AddressFamily → Option (BitVec 128))
    (port : BitVec 16) (domain : AddressFamily) (type : SocketType) (protocol : IntT)
    (info : Option (List AddrInfo)) (service : Option (BitVec 16)) (calloc : Bool) (setup : ServerSetup)
    (msgHandl : Bool) :
    (Reports (serverSteps calls domain) (sxCreateServerSocket calls port domain type protocol) ↔
      calls.calloc = true ∧ domain.Accepted ∧ calls.socket.isSome = true ∧ calls.reuseAddr = true ∧
        calls.noSigpipe = true ∧ calls.bind = true) ∧
    (Reports (clientSteps calls domain) (sxCreateClientSocket calls inetPton port domain type protocol) ↔
      calls.calloc = true ∧ domain.Accepted ∧ calls.socket.isSome = true ∧ calls.noSigpipe = true) ∧
    (Reports (hostnameSteps calls info) (sxCreateClientSocketByHostname calls info service) ↔
      calls.calloc = true ∧ LookupReturns info service ∧
        (info = none ∨ calls.socket = none ∨ calls.noSigpipe = false)) ∧
    ((∃ c, sxCreateServerAlloc calloc calls setup msgHandl = some c ∧ (c.freed = false ↔ c.err = sxSuccess)) ↔
      calloc = true ∧ calls.calloc = true) :=
  ⟨serverSocket_reports_iff, clientSocket_reports_iff, hostname_reports_iff, createServer_reports_iff⟩

/-- `bind` fails, and the server socket on port 80 reports success; `setsockopt` fails, and the client socket does;
    everything succeeds, and the socket for a host name is the null pointer. -/
theorem constructors_hide_failures :
    ¬ Reports (serverSteps { bind := false } .inet) (sxCreateServerSocket { bind := false } 80 .inet .stream 0) ∧
      ¬ Reports (clientSteps { noSigpipe := false } .inet)
        (sxCreateClientSocket { noSigpipe := false } (fun _ => some 0) 80 .inet .stream 0) ∧
      ¬ Reports (hostnameSteps {} (some [loopbackInfo, loopbackInfo]))
        (sxCreateClientSocketByHostname {} (some [loopbackInfo, loopbackInfo]) (some 80)) := by
  refine ⟨?_, ?_, ?_⟩
  · rintro ⟨_, _, _, hout, hlast, hiff, _⟩
    cases hout
    cases hlast
    exact absurd (hiff.mp ⟨rfl, rfl⟩) (by decide)
  · rintro ⟨_, _, _, hout, hlast, hiff, _⟩
    cases hout
    cases hlast
    exact absurd (hiff.mp ⟨rfl, rfl⟩) (by decide)
  · rintro ⟨_, _, _, hout, _, hiff, _⟩
    cases hout
    exact absurd (hiff.mpr (by decide)).2 (by decide)

end SpartanX
