import SpartanX.Client.Loop
import SpartanX.Constructors

/-!
# `Client.Release` — who releases the socket of a client

`SXCreateClientWithIp` makes a client and a socket with one reference each, and the socket's is the client's. Behind
its loop `SXStartClient` releases the socket, which frees it, and then the client, whose deallocator releases the
socket again. So every run to the end applies an `SXRelease` to a socket that has been freed
(`client_socket_released_twice`).
-/

namespace SpartanX

open CInt

/-! ## Creation -/

/-- `SXCreateClientWithIp`: the values assigned to `*err_ret`, in order, and the client. `calloc` and `bufCalloc` say
    whether the client and its buffer were allocated; `calls` are the calls for the socket. A buffer that is `NULL` is
    an empty one. -/
def sxCreateClientWithIp (calloc bufCalloc : Bool) (calls : SocketCalls)
    (inetPton : AddressFamily → Option (BitVec 128)) (port : BitVec 16) (domain : AddressFamily) (type : SocketType)
    (protocol bufSize : IntT) : Option (List SXError × Client) :=
  -- the pointer is not tested before `sx_runtime_obj_init` writes through it
  if calloc = false then none
  else
    let client : Client := { toRuntimeObject := sxRuntimeObjInit {} .freeClient }
    match sxCreateClientSocket calls inetPton port domain type protocol with
    | none                => none
    | some (writes, sock) =>
      let dataSize : SizeT := bufSize.signExtend 64
      some (writes, { client with
        sock     := sock
        dataSize := dataSize
        buf      := if bufCalloc then List.replicate dataSize.toNat 0 else [] })

/-! ## The rule -/

/-- The event reads or releases the socket object. -/
def ClientEvent.TouchesSock : ClientEvent → Prop
  | .accessSock | .releaseSock _ => True
  | _ => False

/-- Nobody touches the socket object behind the release that frees it. -/
def SockLeftAlone (tr : List ClientEvent) : Prop :=
  Machine.EachEvent (fun before e => .releaseSock true ∈ before → ¬ e.TouchesSock) tr

/-- The rule: `SXFreeSocket` runs exactly once, and nobody touches the socket object behind it. -/
def ReleasedOnce (tr : List ClientEvent) : Prop := tr.count (.releaseSock true) = 1 ∧ SockLeftAlone tr

/-- The loop has come to its end. -/
def ClientPc.Ended (pc : ClientPc) : Prop := pc = .done ∨ pc = .freed

instance : (e : ClientEvent) → Decidable e.TouchesSock
  | .accessSock | .releaseSock _ => inferInstanceAs (Decidable True)
  | .iterate | .branch _ | .recv _ _ | .reread _ | .dataHandler _ _ _ | .willSuspend | .didResume
  | .didDisconnect | .releaseClient _ | .freeClient | .suspendClient _ | .resumeClient _ | .setClientStatus _ =>
    inferInstanceAs (Decidable False)

instance (tr : List ClientEvent) : Decidable (SockLeftAlone tr) := by
  unfold SockLeftAlone
  infer_instance

instance (tr : List ClientEvent) : Decidable (ReleasedOnce tr) := inferInstanceAs (Decidable (_ ∧ _))
instance (pc : ClientPc) : Decidable pc.Ended := inferInstanceAs (Decidable (_ ∨ _))

/-! ## The references -/

/-- The client and its socket, if it has one, are held once. -/
def Client.HeldOnce (client : Client) : Prop :=
  client.obj.refCount = 1 ∧ ∀ sock, client.sock = some sock → sock.obj.refCount = 1

/-- What the references are when the loop stands at a program point. -/
def ClientPc.RefsAre (client : Client) (tr : List ClientEvent) : ClientPc → Prop
  | .didDisconnect | .releaseClient => client.obj.refCount = 1 ∧ .releaseSock true ∈ tr
  | .freeClient => .releaseSock true ∈ tr
  | .done => False
  | .freed => ¬ SockLeftAlone tr
  | _ => client.HeldOnce

section Step

variable {client client' : Client} {tr es : List ClientEvent} {c c' : ClientLoop} {i : Input} {freed : Bool}

/-- The release of a last reference frees. -/
theorem sxRelease_last {obj : ObjHeader} (h : obj.refCount = 1) : (sxRelease obj).2 = true := by
  unfold sxRelease Counter.stickyRelease
  simp [h, sxWeakObject]

/-- The first release of the socket frees it, and leaves the count of the client alone. -/
theorem Client.HeldOnce.releaseSock (h : client.HeldOnce) (hr : client.releaseSock = some (client', freed)) :
    client'.obj.refCount = 1 ∧ freed = true := by
  unfold Client.releaseSock at hr
  split at hr
  · cases hr
  · next sock hsock =>
      have hlast := sxRelease_last (h.2 sock hsock)
      cases hr
      exact ⟨h.1, hlast⟩

/-- A release behind the one that freed the socket breaks the rule. -/
theorem not_sockLeftAlone_of_release (h : .releaseSock true ∈ tr) :
    ¬ SockLeftAlone (tr ++ .releaseSock freed :: es) := by
  intro hleft
  exact hleft tr (.releaseSock freed) es rfl h trivial

/-- **The references survive every move.** -/
theorem refsAre_move (hm : ClientMove c i c' es) (hi : c.pc.RefsAre c.client tr) :
    c'.pc.RefsAre c'.client (tr ++ es) := by
  have hat {pc : ClientPc} (hpc : c.pc = pc) : pc.RefsAre c.client tr := hpc ▸ hi
  cases hm with
  | setStatus hpc | clear hpc _ | branchRunning hpc _ | branchResuming hpc _ | branchSuspend hpc _
  | branchDefault hpc _ _ | callRecv hpc | recvFails hpc | recv hpc _ _ | setRunning hpc | didResume hpc
  | willSuspend hpc | callRecvSuspended hpc | recvSuspendedFails hpc | recvSuspendedEmpty hpc
  | recvSuspended hpc _ _ _ | rereadEnds hpc _ | rereadDelivers hpc _ | rereadSkips hpc _ _ | testKeeps hpc _
  | testEnds hpc _ =>
      have hheld : c.client.HeldOnce := hat hpc
      exact ⟨hheld.1, hheld.2⟩
  | handle hpc _ _ _ _ | handleNull hpc _ =>
      have hheld : c.client.HeldOnce := by rcases hpc with hpc | hpc <;> exact hat hpc
      exact ⟨hheld.1, hheld.2⟩
  | releaseSock hpc client freed hr =>
      have hheld : c.client.HeldOnce := hat hpc
      obtain ⟨hcount, rfl⟩ := hheld.releaseSock hr
      exact ⟨hcount, List.mem_append_right tr (List.mem_singleton_self _)⟩
  | didDisconnect hpc =>
      obtain ⟨hcount, hfreed⟩ := hat hpc
      exact ⟨hcount, List.mem_append_left _ hfreed⟩
  | releaseClient hpc =>
      obtain ⟨hcount, hfreed⟩ := hat hpc
      -- the loop holds the last reference to the client
      rw [sxRelease_last hcount]
      exact List.mem_append_left _ hfreed
  | freeClient hpc client freed hr =>
      exact not_sockLeftAlone_of_release (hat hpc)

/-- Nor does another party change them. -/
theorem refsAre_other {st : Status} {e : ClientEvent} (hi : c.pc.RefsAre c.client tr) :
    c.pc.RefsAre { c.client with status := st } (tr ++ [e]) := by
  cases hpc : c.pc <;> rw [hpc] at hi
  case didDisconnect | releaseClient => exact ⟨hi.1, List.mem_append_left _ hi.2⟩
  case freeClient => exact List.mem_append_left _ hi
  case done => exact hi
  case freed =>
    intro hleft
    exact hi (Machine.EachEvent.left hleft)
  all_goals exact ⟨hi.1, hi.2⟩

end Step

/-! ## Results -/

section Results

variable {calloc bufCalloc : Bool} {calls : SocketCalls} {inetPton : AddressFamily → Option (BitVec 128)}
  {port : BitVec 16} {domain : AddressFamily} {type : SocketType} {protocol bufSize : IntT}
  {writes : List SXError} {client : Client}

/-- A created client holds itself and its socket once. -/
theorem sxCreateClientWithIp_heldOnce
    (h : sxCreateClientWithIp calloc bufCalloc calls inetPton port domain type protocol bufSize =
      some (writes, client)) : client.HeldOnce := by
  unfold sxCreateClientWithIp at h
  split at h
  · cases h
  · dsimp only at h
    split at h
    · cases h
    · next writes' sock hsock =>
        cases h
        refine ⟨rfl, ?_⟩
        rintro s rfl
        cases hcalloc : calls.calloc with
        | false => simp [sxCreateClientSocket, hcalloc] at hsock
        | true =>
            by_cases hdomain : domain.Accepted
            · obtain ⟨ws, s', hok, hobj⟩ := sxCreateClientSocket_accepted inetPton port type protocol hcalloc hdomain
              rw [hok] at hsock
              cases hsock
              rw [hobj]
            · obtain ⟨ws, hok⟩ := sxCreateClientSocket_rejected inetPton port type protocol hcalloc hdomain
              rw [hok] at hsock
              cases hsock

/-- **The socket of a client is released behind its deallocation**, in every run to the end. The client has been made
    by `SXCreateClientWithIp` and given handlers and flags, `connect` has succeeded, and nobody else holds a
    reference; what other parties do to its status makes no difference. -/
theorem client_socket_released_twice {handlers : Handlers} {recvFlags : IntT} {err : SXError} {c₀ c : ClientLoop}
    {acts : List ClientAct} {tr : List ClientEvent}
    (hcreate : sxCreateClientWithIp calloc bufCalloc calls inetPton port domain type protocol bufSize =
      some (writes, client))
    (hstart : sxStartClient true { client with handlers := handlers, recvFlags := recvFlags } = some (err, some c₀))
    (hrun : Machine.run clientSysStep c₀ acts = some (c, tr)) (hend : c.pc.Ended) : ¬ ReleasedOnce tr := by
  have hheld := sxCreateClientWithIp_heldOnce hcreate
  have hrefs : c.pc.RefsAre c.client tr := by
    apply client_run_invariant (I := fun c tr => c.pc.RefsAre c.client tr) ?_ ?_ hstart ?_ hrun
    · intro c i c' tr es hi hm
      exact refsAre_move hm hi
    · intro c tr st e hi _
      exact refsAre_other hi
    · exact ⟨hheld.1, hheld.2⟩
  rintro ⟨_, hleft⟩
  rcases hend with hpc | hpc <;> rw [hpc] at hrefs
  · exact hrefs
  · exact hrefs hleft

end Results

/-- The client `SXCreateClientWithIp` makes for port 80 and a buffer of one byte, with its data handler set. -/
def createdClient : Client :=
  { obj := { refCount := 1, dealloc := .freeClient }, dataSize := 1, buf := [0], handlers := { dataHandler := true }
    sock := some
      { obj := { refCount := 1, dealloc := .freeSocket }, sockfd := 3, domain := .inet, type := .stream
        addr := { family := .inet, port := htons 80, len := 16 } } }

/-- It gets one message, and its handler answers `0`. -/
def answeredOnce : List ClientAct := firstMessage [5] 0 ++ ticks 4

/-- For it, on a run to the end. -/
theorem client_socket_released_twice_answered :
    ∃ client c tr, sxCreateClientWithIp true true {} (fun _ => some 0) 80 .inet .stream 0 1 =
        some ([sxSuccess], client) ∧
      sxStartClient true { client with handlers := { dataHandler := true } } =
        some (sxSuccess, some { client := createdClient }) ∧
      Machine.run clientSysStep { client := createdClient } answeredOnce = some (c, tr) ∧ c.pc.Ended ∧
        ¬ ReleasedOnce tr := by
  have hcreate : sxCreateClientWithIp true true {} (fun _ => some 0) 80 .inet .stream 0 1 =
      some ([sxSuccess], { createdClient with handlers := {} }) := by decide +kernel
  have hstart : sxStartClient true { createdClient with handlers := { dataHandler := true }, recvFlags := 0 } =
      some (sxSuccess, some { client := createdClient }) := by decide +kernel
  have hend : (Machine.run clientSysStep { client := createdClient } answeredOnce).map (·.1.pc) = some .freed := by
    decide +kernel
  obtain ⟨⟨c, tr⟩, hrun, hpc⟩ := Option.map_eq_some_iff.mp hend
  refine ⟨_, c, tr, hcreate, hstart, hrun, .inr hpc, ?_⟩
  exact client_socket_released_twice hcreate hstart hrun (.inr hpc)

/-- Its peer closes before anything is sent, and the handler answers `0`. -/
def closedAtOnce : List ClientAct :=
  ticks 4 ++ [.loop (.recv (some [])), .loop (.handler 0 [0])] ++ ticks 5

/-- **The second release.** `SXFreeSocket` has run when the deallocator of the client releases the socket. -/
theorem client_releases_freed_socket :
    ∃ client c, sxCreateClientWithIp true true {} (fun _ => some 0) 80 .inet .stream 0 1 =
        some ([sxSuccess], client) ∧
      sxStartClient true { client with handlers := { dataHandler := true } } =
        some (sxSuccess, some { client := createdClient }) ∧
      Machine.run clientSysStep { client := createdClient } closedAtOnce = some (c,
        [.iterate, .branch .running, .accessSock, .recv .running (some []), .dataHandler [0] 0 0, .releaseSock true,
          .releaseClient true, .releaseSock false, .freeClient]) ∧
      ¬ ReleasedOnce [.iterate, .branch .running, .accessSock, .recv .running (some []), .dataHandler [0] 0 0,
        .releaseSock true, .releaseClient true, .releaseSock false, .freeClient] := by
  have hcreate : sxCreateClientWithIp true true {} (fun _ => some 0) 80 .inet .stream 0 1 =
      some ([sxSuccess], { createdClient with handlers := {} }) := by decide +kernel
  have hrun : (Machine.run clientSysStep { client := createdClient } closedAtOnce).map (·.2) = some
      [.iterate, .branch .running, .accessSock, .recv .running (some []), .dataHandler [0] 0 0, .releaseSock true,
        .releaseClient true, .releaseSock false, .freeClient] := by decide +kernel
  obtain ⟨⟨c, tr⟩, hrun, rfl⟩ := Option.map_eq_some_iff.mp hrun
  refine ⟨_, c, hcreate, by decide +kernel, hrun, ?_⟩
  decide

end SpartanX
