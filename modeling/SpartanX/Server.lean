import SpartanX.RefCount
import SpartanX.Socket

/-!
# `Server` — the server object: creation, requests on it, deallocation

`sx_server_t` embeds the items of a runtime object, whose header holds the count that `SXRetain` and
`SXRelease` maintain, and declares a `ref_count` of its own. Only the three requests below read the second
one, and nothing assigns it, so each of them takes every server for an invalid one
(`server_never_recognised`).
-/

namespace SpartanX

open CInt Counter

/-- `sx_server_t`. `serverRefCount` is the field `ref_count` of the structure itself. -/
structure Server extends RuntimeObject where
  sock           : Option Socket := none
  didStart       : Bool          := false
  shouldConnect  : Bool          := false
  didKill        : Bool          := false
  backlog        : SizeT         := 0
  maxGuest       : SizeT         := 0
  failable       : Bool          := false
  serverRefCount : UIntT         := 0
  deriving DecidableEq, Repr

/-- `sx_server_setup`. -/
structure ServerSetup where
  domain   : UIntT := 1
  port     : UIntT := 0
  backlog  : SizeT := 5
  dataSize : SizeT := 1024
  maxGuest : SizeT := 500
  failable : Bool  := false
  deriving DecidableEq, Repr

/-- What `SXCreateServer` hands back: the error code, the server, and whether that server has been freed. -/
structure CreatedServer where
  err    : SXError
  server : Server
  freed  : Bool
  deriving DecidableEq, Repr

/-- `SXCreateServer`. Both branches of the `switch` are the same statements with another domain; the allocation
    of the structure itself is taken to succeed, as the code takes it. -/
def sxCreateServer (calls : SocketCalls) (setup : ServerSetup) (msgHandl : Bool) : Option CreatedServer :=
  let server : Server := { obj := sxObjInit {} .freeServer }
  let portNum : BitVec 16 := setup.port.setWidth 16
  let domain : AddressFamily := if setup.domain = 1 then .inet else .inet6
  match sxCreateServerSocket calls portNum domain .stream 0 with
  | none                => none
  | some (writes, sock) =>
    let server := { server with sock := sock }
    let tmpErr := writes.getLast?.getD sxSuccess
    if tmpErr ≠ sxSuccess then some { err := tmpErr, server := server, freed := true }
    else
      some {
        err    := sxSuccess
        server := { server with
          handlers := { server.handlers with dataHandler := msgHandl }
          backlog  := setup.backlog
          dataSize := setup.dataSize
          maxGuest := setup.maxGuest
          failable := setup.failable }
        freed  := false }

/-- `SXSuspendServer`. -/
def sxSuspendServer : Option Server → SXError × Option Server
  | none        => (sxErrorInvalidServer, none)
  | some server =>
    if server.serverRefCount = 0 then (sxErrorInvalidServer, some server)
    else
      let err := sxCheckCompatibleStatus server.status [.idle, .running]
      if err ≠ sxSuccess then (err, some server)
      else (sxSuccess, some { server with status := .suspend })

/-- `SXResumeServer`. -/
def sxResumeServer : Option Server → SXError × Option Server
  | none        => (sxErrorInvalidServer, none)
  | some server =>
    if server.serverRefCount = 0 then (sxErrorInvalidServer, some server)
    else
      let err := sxCheckStatus server.status .suspend
      if err ≠ sxSuccess then (err, some server)
      else (sxSuccess, some { server with status := .resuming })

/-- `SXKillServer`; `calls` are the outcomes for the socket it creates in place of the closed one. -/
def sxKillServer (calls : SocketCalls) : Option Server → Option (SXError × Option Server)
  | none        => some (sxErrorInvalidServer, none)
  | some server =>
    if server.serverRefCount = 0 then some (sxErrorInvalidServer, some server)
    else
      let server := if server.status = .suspend then (sxResumeServer (some server)).2.getD server else server
      let err := sxCheckIncompatibleStatus server.status [.shouldTerminate]
      if err ≠ sxSuccess then some (err, some server)
      else
        match server.sock with
        | none      => none
        | some sock =>
          match sxCreateServerSocket calls sock.port sock.domain sock.type sock.protocol with
          | none              => none
          | some (_, newSock) =>
            some (sxSuccess, some { server with status := .shouldTerminate, sock := newSock })

/-- `SXFreeServer`, up to the return of the memory: the listening socket is freed and the structure is
    zeroed. -/
def sxFreeServer (calls : SocketCalls) (server : Server) : Option Server :=
  let killed := if server.status ≠ .idle then sxKillServer calls (some server)
                else some (sxSuccess, some server)
  match killed with
  | none             => none
  | some (_, server) =>
    match server.bind (·.sock) with
    | none   => none
    | some _ => some {}

/-! ## The two reference counts -/

/-- What a live server should look like to the three requests: the count they test agrees with the count
    that is maintained, none of them takes the server for an invalid one, and a kill sets `should_terminate`
    unless it is set already. -/
def Server.RecognisedLive (calls : SocketCalls) (server : Server) : Prop :=
  (server.serverRefCount ≠ 0 ↔ server.obj.refCount ≠ 0) ∧
  (sxSuspendServer (some server)).1 ≠ sxErrorInvalidServer ∧
  (sxResumeServer (some server)).1 ≠ sxErrorInvalidServer ∧
  ∀ err server', sxKillServer calls (some server) = some (err, server') →
    err ≠ sxErrorInvalidServer ∧
      (server.status ≠ .shouldTerminate → server'.map (·.status) = some .shouldTerminate)

/-- A created server has one reference in its header and none in its own field. -/
theorem sxCreateServer_counts {calls : SocketCalls} {setup : ServerSetup} {msgHandl : Bool}
    {c : CreatedServer} (hc : sxCreateServer calls setup msgHandl = some c) :
    c.server.obj = { refCount := 1, dealloc := .freeServer } ∧ c.server.serverRefCount = 0 := by
  unfold sxCreateServer at hc
  dsimp only at hc
  split at hc
  · cases hc
  · split at hc <;> cases hc <;> exact ⟨rfl, rfl⟩

/-- A server whose own count is zero is invalid to all three requests, which then do nothing. -/
theorem requests_invalid {server : Server} (h : server.serverRefCount = 0) (calls : SocketCalls) :
    sxSuspendServer (some server) = (sxErrorInvalidServer, some server) ∧
    sxResumeServer (some server) = (sxErrorInvalidServer, some server) ∧
    sxKillServer calls (some server) = some (sxErrorInvalidServer, some server) := by
  simp [sxSuspendServer, sxResumeServer, sxKillServer, h]

/-- The server after retains and releases on it, with some status. -/
def Server.afterCalls (server : Server) (ops : List Op) (status : Status) : Server :=
  { server with obj := objectCounting.after server.obj ops, status := status }

/-- **No live server is recognised as live.** Whatever server `SXCreateServer` makes, whatever retains and
    releases leave it with a reference, and whatever its status: its own count is zero while the maintained one
    is not, and suspend, resume and kill all answer that it is invalid and do nothing. -/
theorem server_never_recognised {calls : SocketCalls} {setup : ServerSetup} {msgHandl : Bool}
    {c : CreatedServer} (hc : sxCreateServer calls setup msgHandl = some c)
    {ops : List Op} (hlive : ∀ j ≤ ops.length, 0 < height 1 ops j) (status : Status)
    (killCalls : SocketCalls) :
    let server := c.server.afterCalls ops status
    ¬ server.RecognisedLive killCalls ∧ server.serverRefCount = 0 ∧ server.obj.refCount ≠ 0 ∧
      sxSuspendServer (some server) = (sxErrorInvalidServer, some server) ∧
      sxResumeServer (some server) = (sxErrorInvalidServer, some server) ∧
      sxKillServer killCalls (some server) = some (sxErrorInvalidServer, some server) := by
  intro server
  obtain ⟨hobj, hzero⟩ := sxCreateServer_counts hc
  have hpos : 0 < server.obj.refCount := by
    apply after_count_pos objectCounting_sticky (by decide)
    intro j hj
    have hone : objectCounting.count c.server.obj = 1 := by rw [hobj]; rfl
    rw [hone]
    exact hlive j hj
  have hz : server.serverRefCount = 0 := hzero
  refine ⟨?_, hz, by omega, requests_invalid hz killCalls⟩
  intro h
  exact h.1.mpr (by omega) hz

/-- A running server with one extra reference taken and given back. -/
theorem server_never_recognised_running :
    ∃ c, sxCreateServer {} {} true = some c ∧
      sxKillServer {} (some (c.server.afterCalls [.retain, .release] .running)) =
        some (sxErrorInvalidServer, some (c.server.afterCalls [.retain, .release] .running)) := by
  have hc : sxCreateServer {} {} true = some _ := rfl
  exact ⟨_, hc, (@server_never_recognised _ _ _ _ hc [.retain, .release] (by decide) .running {}).2.2.2.2.2⟩

/-- A freshly created server has a reference that its own count does not show. -/
theorem created_server_not_recognised :
    ∃ c, sxCreateServer {} {} true = some c ∧ c.err = sxSuccess ∧ c.freed = false ∧
      ¬ (c.server.afterCalls [] .running).RecognisedLive {} := by
  refine ⟨_, rfl, rfl, rfl, ?_⟩
  intro h
  have hown := h.1.mpr (by decide)
  exact absurd rfl hown

end SpartanX
