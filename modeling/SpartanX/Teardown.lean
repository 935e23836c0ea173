import SpartanX.AcceptLoop
import SpartanX.Connection.Stream

/-!
# `Teardown` — what a connection takes and what it gives back

A connection block creates a queue object and allocates a buffer; at its end it releases the queue and does
nothing about the buffer. `SXCreateQueue` initialises the header of the socket in place of the queue's, so the
queue's count is `0` when it is released, the release takes it to `-1` and deallocates nothing, and the socket
carries the deallocator of queues. So the objects in use match the blocks at work as long as no block has
released its queue, and the deallocators are right as long as no block has created one (`teardown_iff`).

## Contents
- **The law.** `Conn.HasQueue`, `Conn.HasBuffer`, `TeardownLaw`.
- **One connection.** `Conn.Headers`, `headers_move`, `counts_move`.
- **The system.** `TeardownInv`, `teardownInv_step`.
- **Results.** `teardown_iff`, `teardown_leaks`.
-/

namespace SpartanX

open CInt

/-! ## The law -/

/-- The call of `SXCreateQueue`. -/
def ConnEvent.CreatesQueue (e : ConnEvent) : Bool := e matches .createQueue

/-- A release of the queue that runs its deallocator. -/
def ConnEvent.FreesQueue (e : ConnEvent) : Bool := e matches .releaseQueue true

/-- The allocation of the buffer. No statement of the block frees it. -/
def ConnEvent.AllocatesBuffer (e : ConnEvent) : Bool := e matches .allocBuf

/-- The number of such events of all connections. -/
def connCount (p : ConnEvent → Bool) (tr : List SysEvent) : Nat :=
  tr.countP fun e => match e with
    | .conn _ e => p e
    | _         => false

/-- A connection block between its `SXCreateQueue` and its `SXRelease(queue)`. -/
def Conn.HasQueue (c : Conn) : Bool := c.pc ≠ .create && c.pc ≠ .decCount && c.pc ≠ .done

/-- A connection block between the allocation of its buffer and its end. -/
def Conn.HasBuffer (c : Conn) : Bool := c.pc.Allocated && c.pc ≠ .decCount && c.pc ≠ .done

/-- The socket objects of a started server. -/
def Sys.sockets (s : Sys) : List Socket := s.server.sock.toList ++ s.conns.flatMap fun c => [c.sock, c.socket]

/-- The queues created and not deallocated, and the buffers allocated, are as many as the blocks that have one. -/
structure CountsAgree (s : Sys) (tr : List SysEvent) : Prop where
  queues  : connCount ConnEvent.CreatesQueue tr =
    connCount ConnEvent.FreesQueue tr + s.conns.countP Conn.HasQueue
  buffers : connCount ConnEvent.AllocatesBuffer tr = s.conns.countP Conn.HasBuffer

/-- Connection teardown returns what it took: the counts agree, the last release of a queue runs `SXFreeQueue`,
    and no socket has that deallocator. -/
structure TeardownLaw (s : Sys) (tr : List SysEvent) : Prop where
  counts  : CountsAgree s tr
  queues  : ∀ c ∈ s.conns, c.pc ≠ .create → c.queue.obj.dealloc = .freeQueue
  sockets : ∀ sock ∈ s.sockets, sock.obj.dealloc ≠ .freeQueue

/-! ## One connection -/

/-- The headers of a connection: `SXCreateQueue` initialises the one of the socket and leaves the queue's zeroed. -/
structure Conn.Headers (c : Conn) : Prop where
  sock   : c.sock.obj.dealloc = if c.pc = .create then .null else .freeQueue
  socket : c.socket.obj.dealloc = .null
  queue  : c.queue.obj.dealloc = .null
  count  : c.HasQueue = true → c.queue.obj.refCount = 0

section Move

variable {srv : Server} {c c' : Conn} {i : Input} {es : List ConnEvent}

/-- The header of a queue with count `0` is not deallocated by its release. -/
theorem sxRelease_zero {obj : ObjHeader} (h : obj.refCount = 0) : (sxRelease obj).2 = false := by
  have hne : (0 : Int) ≠ sxWeakObject := by decide
  simp [sxRelease, Counter.stickyRelease, h, hne]

/-- The headers survive every move. -/
theorem headers_move (hm : ConnMove srv c i c' es) (hh : c.Headers) : c'.Headers := by
  have hsock := hh.sock
  cases hm with
  | create hpc =>
      rw [if_pos hpc] at hsock
      exact ⟨rfl, hsock, rfl, fun _ => rfl⟩
  | releaseQueue hpc =>
      rw [if_neg (by simp [hpc])] at hsock
      exact ⟨hsock, hh.socket, hh.queue, fun h => (by cases h)⟩
  | decCount hpc =>
      rw [if_neg (by simp [hpc])] at hsock
      exact ⟨hsock, hh.socket, hh.queue, fun h => (by cases h)⟩
  | _ hpc =>
      rw [if_neg (by simp [hpc])] at hsock
      exact ⟨hsock, hh.socket, hh.queue, fun _ => hh.count (by simp [Conn.HasQueue, hpc])⟩

/-- Each move has as many of the three events as it says: a creation when it leaves `create`, an allocation when it
    passes `alloc`, and no deallocation. -/
theorem counts_move (hm : ConnMove srv c i c' es) (hh : c.Headers) :
    es.countP ConnEvent.CreatesQueue + (if c.pc ≠ .create then 1 else 0) = (if c'.pc ≠ .create then 1 else 0) ∧
    es.countP ConnEvent.AllocatesBuffer + (if c.pc.Allocated then 1 else 0) = (if c'.pc.Allocated then 1 else 0) ∧
    es.countP ConnEvent.FreesQueue = 0 := by
  cases hm with
  | didConnect hpc | didResume hpc | willSuspend hpc | willKill hpc | didDisconnect hpc =>
      unfold callIf
      split <;>
        simp [hpc, ConnPc.Allocated, ConnEvent.CreatesQueue, ConnEvent.AllocatesBuffer, ConnEvent.FreesQueue]
  | releaseQueue hpc =>
      have hfree : (sxRelease c.queue.obj).2 = false := sxRelease_zero (hh.count (by simp [Conn.HasQueue, hpc]))
      rw [hfree]
      simp [hpc, ConnPc.Allocated, ConnEvent.CreatesQueue, ConnEvent.AllocatesBuffer, ConnEvent.FreesQueue]
  | _ hpc =>
      simp [hpc, ConnPc.Allocated, ConnEvent.CreatesQueue, ConnEvent.AllocatesBuffer, ConnEvent.FreesQueue]

end Move

/-! ## The system -/

theorem connCount_append (p : ConnEvent → Bool) (tr es : List SysEvent) :
    connCount p (tr ++ es) = connCount p tr + connCount p es :=
  List.countP_append

/-- The events of a step of one connection. -/
theorem connCount_conn (p : ConnEvent → Bool) (k : Nat) (ces : List ConnEvent) (freed : Bool) :
    connCount p (ces.map (.conn k) ++ freedIf freed) = ces.countP p := by
  have hfreed : connCount p (freedIf freed) = 0 := by cases freed <;> rfl
  rw [connCount_append, hfreed, Nat.add_zero]
  exact List.countP_map

/-- The invariant: every block but those not started has created a queue, every block past its allocation has a
    buffer, nothing has been deallocated, and the headers are as `SXCreateQueue` leaves them. -/
structure TeardownInv (s : Sys) (tr : List SysEvent) : Prop where
  created   : connCount ConnEvent.CreatesQueue tr = s.conns.countP fun c => c.pc ≠ .create
  allocated : connCount ConnEvent.AllocatesBuffer tr = s.conns.countP fun c => c.pc.Allocated
  freed     : connCount ConnEvent.FreesQueue tr = 0
  headers   : ∀ c ∈ s.conns, c.Headers
  accepted  : s.sock.obj.dealloc = .null
  listening : ∀ sock, s.server.sock = some sock → sock.obj.dealloc ≠ .freeQueue

section Step

variable {calls : SocketCalls} {s s' : Sys} {tr es : List SysEvent}

/-- A step that leaves the connections alone. -/
theorem TeardownInv.pass (hi : TeardownInv s tr) (hes : ∀ p, connCount p es = 0) (hconns : s'.conns = s.conns)
    (hsock : s'.sock.obj.dealloc = .null)
    (hlisten : ∀ sock, s'.server.sock = some sock → s.server.sock = some sock) : TeardownInv s' (tr ++ es) := by
  have hcount (p : ConnEvent → Bool) : connCount p (tr ++ es) = connCount p tr := by
    rw [connCount_append, hes, Nat.add_zero]
  refine ⟨?_, ?_, ?_, ?_, hsock, fun sock h => hi.listening sock (hlisten sock h)⟩
  · rw [hcount, hconns]
    exact hi.created
  · rw [hcount, hconns]
    exact hi.allocated
  · rw [hcount]
    exact hi.freed
  · rw [hconns]
    exact hi.headers

/-- A step of one connection that counts as it should. -/
theorem TeardownInv.conn {k : Nat} {c c' : Conn} {ces : List ConnEvent} {freed : Bool} (hi : TeardownInv s tr)
    (hc : s.conns[k]? = some c) (hconns : s'.conns = s.conns.set k c') (hheaders : c.Headers → c'.Headers)
    (hcounts : c.Headers →
      ces.countP ConnEvent.CreatesQueue + (if c.pc ≠ .create then 1 else 0) = (if c'.pc ≠ .create then 1 else 0) ∧
      ces.countP ConnEvent.AllocatesBuffer + (if c.pc.Allocated then 1 else 0) = (if c'.pc.Allocated then 1 else 0) ∧
      ces.countP ConnEvent.FreesQueue = 0)
    (hsock : s'.sock = s.sock) (hlisten : ∀ sock, s'.server.sock = some sock → s.server.sock = some sock) :
    TeardownInv s' (tr ++ (ces.map (.conn k) ++ freedIf freed)) := by
  have hh := hi.headers c (List.mem_of_getElem? hc)
  obtain ⟨hcreate, halloc, hfree⟩ := hcounts hh
  refine ⟨?_, ?_, ?_, ?_, ?_, fun sock h => hi.listening sock (hlisten sock h)⟩
  · have hset := Parties.countP_set (b := c') (fun c : Conn => decide (c.pc ≠ .create)) hc
    have hold := hi.created
    rw [connCount_append, connCount_conn, hconns]
    simp only [decide_eq_true_eq] at hset
    omega
  · have hset := Parties.countP_set (b := c') (fun c : Conn => c.pc.Allocated) hc
    have hold := hi.allocated
    rw [connCount_append, connCount_conn, hconns]
    omega
  · rw [connCount_append, connCount_conn, hi.freed, hfree]
  · rw [hconns]
    exact Parties.forall_mem_set hi.headers (hheaders hh)
  · rw [hsock]
    exact hi.accepted

/-- A release leaves a server its listening socket, or a deallocated one none. -/
theorem sock_release {server server' : Server} {freed : Bool}
    (h : sxReleaseServer calls server = some (server', freed)) (sock : Socket) (hsock : server'.sock = some sock) :
    server.sock = some sock := by
  rcases sxReleaseServer_cases h with ⟨_, _, rfl⟩ | ⟨_, _, _, rfl, _⟩
  · cases hsock
  · exact hsock

/-- A step of a connection leaves the variable of the loop and the listening socket alone. -/
theorem conn_sock {k : Nat} {i : Input} (hs : sysStep calls s (.conn k i) = some (s', es)) :
    s'.sock = s.sock ∧ ∀ sock, s'.server.sock = some sock → s.server.sock = some sock := by
  obtain ⟨c, _, hm⟩ := conn_share hs
  cases hm with
  | giveBack c' _ _ server' freed hrel => exact ⟨rfl, sock_release hrel⟩
  | take _ _ _ | leave _ _ _ | stay _ _ _ _ _ => exact ⟨rfl, fun _ h => h⟩

/-- The invariant survives every move of the loop. -/
theorem teardownInv_loop (hm : LoopMove calls s s' es) (hi : TeardownInv s tr) : TeardownInv s' (tr ++ es) := by
  cases hm with
  | touch pc' st es hholds hslot hinc hes =>
      refine hi.pass ?_ rfl hi.accepted (fun _ h => h)
      intro p
      rcases hes with rfl | rfl <;> rfl
  | enter _ _ | inc _ | failed _ | refused _ | didKill _ =>
      exact hi.pass (fun _ => rfl) rfl hi.accepted (fun _ h => h)
  | accepted _ fd => exact hi.pass (fun _ => rfl) rfl rfl (fun _ h => h)
  | dispatch _ =>
      have hcount (p : ConnEvent → Bool) : connCount p (tr ++ [.dispatched]) = connCount p tr :=
        connCount_append p tr _
      have hstart : (Conn.start s.sock).Headers := ⟨hi.accepted, rfl, rfl, fun h => (by cases h)⟩
      refine ⟨?_, ?_, ?_, ?_, hi.accepted, hi.listening⟩
      · rw [hcount, List.countP_append]
        exact hi.created
      · rw [hcount, List.countP_append]
        exact hi.allocated
      · rw [hcount]
        exact hi.freed
      · intro c hc
        rcases List.mem_append.mp hc with hc | hc
        · exact hi.headers c hc
        · rw [List.mem_singleton.mp hc]
          exact hstart
  | release _ server' freed hrel =>
      refine hi.pass ?_ rfl hi.accepted (sock_release hrel)
      intro p
      cases freed <;> rfl

/-- **The invariant survives every step.** -/
theorem teardownInv_step {a : SysAct} (hi : TeardownInv s tr) (hs : sysStep calls s a = some (s', es)) :
    TeardownInv s' (tr ++ es) := by
  cases a with
  | owner =>
      simp only [sysStep] at hs
      split at hs
      · split at hs
        · cases hs
        · rename_i server freed hrel
          cases hs
          exact hi.pass (fun p => by cases freed <;> rfl) rfl hi.accepted (sock_release hrel)
      · cases hs
  | loop i => exact teardownInv_loop (loopStep_move hs) hi
  | conn k i =>
      obtain ⟨c, c', ces, freed, hc, hstep, hconns, rfl⟩ := sysStep_conn hs
      have hm := connStep_move hstep
      obtain ⟨hsock, hlisten⟩ := conn_sock hs
      exact hi.conn hc hconns (headers_move hm) (counts_move hm) hsock hlisten
  | setStatus st =>
      simp only [sysStep] at hs
      cases hs
      exact hi.pass (fun _ => rfl) rfl hi.accepted (fun _ h => h)
  | queue k a =>
      obtain ⟨c, c', ces, hc, hother, hstep, rfl, rfl⟩ := sysStep_queue hs
      obtain ⟨hpc, st, e, rfl, rfl, he⟩ := connSysStep_other hother hstep
      have hnil : [e].map (SysEvent.conn k) = [e].map (SysEvent.conn k) ++ freedIf false := rfl
      rw [hnil]
      refine hi.conn hc rfl (fun hh => ⟨hh.sock, hh.socket, hh.queue, hh.count⟩) (fun _ => ?_) rfl (fun _ h => h)
      cases e <;> first | exact ⟨Nat.zero_add _, Nat.zero_add _, rfl⟩ | cases he

end Step

/-! ## Results -/

/-- A queue in use was created. -/
theorem created_of_hasQueue {c : Conn} (h : c.HasQueue = true) : c.pc ≠ .create := by
  intro hpc
  rw [Conn.HasQueue, hpc] at h
  cases h

section Results

variable {s : Sys} {tr : List SysEvent}

/-- The counts agree exactly as long as no block has released its queue. -/
theorem countsAgree_iff (hi : TeardownInv s tr) :
    CountsAgree s tr ↔ ∀ c ∈ s.conns, c.pc ≠ .decCount ∧ c.pc ≠ .done := by
  have hqueue : connCount ConnEvent.CreatesQueue tr =
      connCount ConnEvent.FreesQueue tr + s.conns.countP Conn.HasQueue ↔
      ∀ c ∈ s.conns, c.pc ≠ .decCount ∧ c.pc ≠ .done := by
    rw [hi.freed, Nat.zero_add, hi.created, Parties.countP_eq_iff fun c _ hc => by simpa using created_of_hasQueue hc]
    apply forall₂_congr
    intro c _
    simp only [decide_eq_true_eq, Conn.HasQueue, Bool.and_eq_true]
    by_cases h₁ : c.pc = .decCount <;> by_cases h₂ : c.pc = .done <;> simp_all
  constructor
  · intro h
    exact hqueue.mp h.queues
  · intro h
    refine ⟨hqueue.mpr h, hi.allocated.trans (List.countP_congr ?_)⟩
    intro c hc
    simp [Conn.HasBuffer, h c hc]

/-- The whole law holds exactly as long as no block has created its queue. -/
theorem teardownLaw_iff (hi : TeardownInv s tr) : TeardownLaw s tr ↔ ∀ c ∈ s.conns, c.pc = .create := by
  constructor
  · intro h c hc
    by_contra hpc
    have hdealloc := h.queues c hc hpc
    rw [(hi.headers c hc).queue] at hdealloc
    cases hdealloc
  · intro h
    refine ⟨(countsAgree_iff hi).mpr fun c hc => by simp [h c hc], fun c hc hpc => absurd (h c hc) hpc, ?_⟩
    intro sock hsock
    rcases List.mem_append.mp hsock with hsock | hsock
    · exact hi.listening sock (Option.mem_toList.mp hsock)
    · obtain ⟨c, hc, hmem⟩ := List.mem_flatMap.mp hsock
      have hheaders := hi.headers c hc
      have hcreate := hheaders.sock
      rw [if_pos (h c hc)] at hcreate
      simp only [List.mem_cons, List.not_mem_nil, or_false] at hmem
      rcases hmem with rfl | rfl
      · simp [hcreate]
      · simp [hheaders.socket]

end Results

/-- **Teardown returns what was taken, until there is a queue.** In every run of a started server whose listening
    socket has not the deallocator of queues: the whole law holds iff no connection block has executed
    `SXCreateQueue`, and the counts alone agree iff no block has got past its `SXRelease(queue)`. -/
theorem teardown_iff {calls : SocketCalls} {server : Server} {preprocessQueue operatingQueue : Bool}
    {s₀ s : Sys} {acts : List SysAct} {tr : List SysEvent}
    (hlisten : ∀ sock, server.sock = some sock → sock.obj.dealloc ≠ .freeQueue)
    (hstart : sxServerStart (some server) preprocessQueue operatingQueue = some (sxSuccess, some s₀))
    (hrun : Machine.run (sysStep calls) s₀ acts = some (s, tr)) :
    (TeardownLaw s tr ↔ ∀ c ∈ s.conns, c.pc = .create) ∧
      (CountsAgree s tr ↔ ∀ c ∈ s.conns, c.pc ≠ .decCount ∧ c.pc ≠ .done) := by
  have h0 : TeardownInv s₀ [] := by
    rw [sxServerStart_spec hstart]
    exact ⟨rfl, rfl, rfl, by simp, rfl, hlisten⟩
  have hi := Machine.run_invariant (I := TeardownInv) (fun _ _ _ _ _ hi hs => teardownInv_step hi hs) h0 hrun
  rw [List.nil_append] at hi
  exact ⟨teardownLaw_iff hi, countsAgree_iff hi⟩

/-- `oneGuest` as `SXServerStart` leaves it. -/
def startedOneGuest : Sys := { server := { oneGuest with obj := sxRetain oneGuest.obj } }

/-- The loop dispatches a connection. -/
def dispatchGuest : List SysAct :=
  List.replicate 9 (SysAct.loop .tick) ++ [.loop (.accept (some 7)), .loop .tick, .loop .tick]

/-- The connection runs from its start to its end. -/
def serveGuest : List SysAct :=
  List.replicate 9 (SysAct.conn 0 .tick) ++ [.conn 0 (.recv none)] ++ List.replicate 5 (SysAct.conn 0 .tick)

/-- A connection that is dispatched has taken nothing yet. -/
theorem teardown_iff_dispatched :
    ∃ s tr, sxServerStart (some oneGuest) true true = some (sxSuccess, some startedOneGuest) ∧
      Machine.run (sysStep {}) startedOneGuest dispatchGuest = some (s, tr) ∧ s.conns.length = 1 ∧
      TeardownLaw s tr := by
  have hlisten : ∀ sock, oneGuest.sock = some sock → sock.obj.dealloc ≠ .freeQueue := by
    intro sock hsock
    cases hsock
    decide
  have hconns : (Machine.run (sysStep {}) startedOneGuest dispatchGuest).map (fun p => p.1.conns) =
      some [Conn.start { sockfd := 7 }] := by decide +kernel
  obtain ⟨⟨s, tr⟩, hrun, hs⟩ := Option.map_eq_some_iff.mp hconns
  dsimp only at hs
  have hstart : sxServerStart (some oneGuest) true true = some (sxSuccess, some startedOneGuest) := rfl
  refine ⟨s, tr, hstart, hrun, by rw [hs]; rfl, (teardown_iff hlisten hstart hrun).1.mpr ?_⟩
  intro c hc
  rw [hs] at hc
  rw [List.mem_singleton.mp hc]
  rfl

/-- **Nothing comes back.** A connection is opened and closed: its queue is released and not deallocated, its buffer
    is not freed, and its socket has the deallocator of queues. -/
theorem teardown_leaks :
    ∃ s tr, sxServerStart (some oneGuest) true true = some (sxSuccess, some startedOneGuest) ∧
      Machine.run (sysStep {}) startedOneGuest (dispatchGuest ++ serveGuest) = some (s, tr) ∧
      connCount ConnEvent.CreatesQueue tr = 1 ∧ connCount ConnEvent.FreesQueue tr = 0 ∧
      connCount ConnEvent.AllocatesBuffer tr = 1 ∧
      s.conns.map (fun c => (c.pc, c.queue.obj, c.sock.obj.dealloc)) =
        [(.done, { refCount := -1, dealloc := .null }, .freeQueue)] ∧
      ¬ CountsAgree s tr ∧ ¬ TeardownLaw s tr := by
  have htrace : (Machine.run (sysStep {}) startedOneGuest (dispatchGuest ++ serveGuest)).map (fun p =>
      [connCount ConnEvent.CreatesQueue p.2, connCount ConnEvent.FreesQueue p.2,
        connCount ConnEvent.AllocatesBuffer p.2, p.1.conns.countP Conn.HasQueue]) = some [1, 0, 1, 0] := by
    decide +kernel
  have hend : (Machine.run (sysStep {}) startedOneGuest (dispatchGuest ++ serveGuest)).map (fun p =>
      p.1.conns.map fun c => (c.pc, c.queue.obj, c.sock.obj.dealloc)) =
      some [(.done, { refCount := -1, dealloc := .null }, .freeQueue)] := by decide +kernel
  obtain ⟨⟨s, tr⟩, hrun, hs⟩ := Option.map_eq_some_iff.mp htrace
  rw [hrun] at hend
  have hconns := Option.some.inj hend
  simp only [List.cons.injEq, and_true] at hs
  obtain ⟨hcreated, hfreed, halloc, hlive⟩ := hs
  have hcounts : ¬ CountsAgree s tr := by
    intro h
    have hqueues := h.queues
    rw [hcreated, hfreed, hlive] at hqueues
    cases hqueues
  exact ⟨s, tr, rfl, hrun, hcreated, hfreed, halloc, hconns, hcounts, fun h => hcounts h.counts⟩

end SpartanX
