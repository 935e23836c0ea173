import SpartanX.AcceptLoop
import SpartanX.Lib.DescriptorTable

/-!
# `Descriptors` — the descriptors of a server started by `SXServerStart`

The accept loop gets a descriptor from `accept` and hands it to the block it dispatches, which closes it at its exit.
A connection that `shouldConnect` refuses has no block, and nobody closes its descriptor. So at all times the process
has open what the loop and the open connections have, and one descriptor for each connection refused so far; every
`close` of a block is of its own descriptor, which is open (`server_descriptors`).

## Contents
- **Who has which.** `Conn.fds`, `Sys.fds`.
- **What a step does.** `connMove_fds`, `loopStep_fds`, `sysStep_fds`.
- **Results.** `server_descriptors`.
-/

namespace SpartanX

open CInt DescriptorTable

/-! ## Who has which descriptor -/

/-- The block has not closed its descriptor yet. -/
def ConnPc.BeforeClose : ConnPc → Bool
  | .didDisconnect | .releaseServer | .releaseQueue | .decCount | .done => false
  | _ => true

/-- The descriptor a connection has to close. -/
def Conn.fds (c : Conn) : List IntT := if c.pc.BeforeClose then [c.sock.sockfd] else []

/-- The loop has a connection it has neither refused nor dispatched. -/
def LoopPc.HasSocket : LoopPc → Bool
  | .shouldConnect | .dispatch => true
  | _ => false

/-- The descriptors the loop and the connections have. -/
def Sys.fds (s : Sys) : List IntT :=
  (if s.pc.HasSocket then [s.sock.sockfd] else []) ++ s.conns.flatMap Conn.fds

/-- The descriptor a step gets. -/
def acceptedFd : SysAct → Option IntT
  | .loop (.accept r) => r
  | _                 => none

/-- The descriptor an event closes. -/
def closedFd : SysEvent → Option IntT
  | .conn _ (.close fd) => some fd
  | _                   => none

/-- The block closes a copy of the socket it captured. -/
def Conn.Copied (c : Conn) : Prop := c.pc ≠ .create → c.socket.sockfd = c.sock.sockfd

theorem closedFd_conn (k : Nat) (ces : List ConnEvent) (freed : Bool) :
    (ces.map (SysEvent.conn k) ++ freedIf freed).filterMap closedFd =
      ces.filterMap fun e => closedFd (.conn k e) := by
  rw [List.filterMap_append, List.filterMap_map]
  cases freed <;> simp [freedIf, closedFd, Function.comp_def]

/-! ## What a step does -/

section Step

variable {calls : SocketCalls} {srv : Server} {c c' : Conn} {i : Input} {ces : List ConnEvent} {k : Nat}

/-- A connection keeps its descriptor until it closes it. -/
theorem connMove_fds (hm : ConnMove srv c i c' ces) (hcopied : c.Copied) :
    Accounts [] (ces.filterMap fun e => closedFd (.conn k e)) c.fds c'.fds ∧ c'.Copied := by
  cases hm with
  | create h => exact ⟨by simp [Accounts, Conn.fds, h, ConnPc.BeforeClose, closedFd], fun _ => rfl⟩
  | close h =>
      have hfd := hcopied (by simp [h])
      exact ⟨by simp [Accounts, Conn.fds, h, ConnPc.BeforeClose, closedFd, hfd], fun _ => hfd⟩
  | didConnect h | didResume h | willKill h | didDisconnect h | willSuspend h =>
      refine ⟨?_, fun _ => hcopied (by simp [h])⟩
      unfold callIf
      split <;> simp [Accounts, Conn.fds, h, ConnPc.BeforeClose, closedFd]
  | _ h =>
      exact ⟨by simp [Accounts, Conn.fds, h, ConnPc.BeforeClose, closedFd], fun _ => hcopied (by simp [h])⟩

/-- What others do to the queue of a connection does not concern its descriptor. -/
theorem connOther_fds {a : ConnAct} (ha : a.ByOther = true) (h : connSysStep srv c a = some (c', ces)) :
    c'.fds = c.fds ∧ (ces.filterMap fun e => closedFd (.conn k e)) = [] ∧ (c.Copied → c'.Copied) := by
  obtain ⟨_, st, e, rfl, rfl, he⟩ := connSysStep_other ha h
  refine ⟨rfl, ?_, id⟩
  cases e <;> first | rfl | cases he

end Step

section System

variable {calls : SocketCalls} {s s' : Sys} {a : SysAct} {i : LoopInput} {es : List SysEvent} {k : Nat}

/-- The step accounts for its descriptors, up to one for each refused connection. -/
def Sys.StepAccounts (s : Sys) (a : SysAct) (s' : Sys) (es : List SysEvent) : Prop :=
  ∃ refused : List IntT, refused.length = es.count .refused ∧
    Accounts (acceptedFd a).toList (es.filterMap closedFd) s.fds (s'.fds ++ refused)

/-- A step that accounts for all of them. -/
theorem stepAccounts_of_perm (hacc : Accounts (acceptedFd a).toList (es.filterMap closedFd) s.fds s'.fds)
    (hnone : .refused ∉ es) : s.StepAccounts a s' es := by
  refine ⟨[], (List.count_eq_zero.mpr hnone).symm, ?_⟩
  rwa [List.append_nil]

/-- The loop hands its descriptor to the block it dispatches, or loses it. -/
theorem loopStep_fds (h : loopStep calls s i = some (s', es)) :
    s.StepAccounts (.loop i) s' es ∧ (s'.conns = s.conns ∨ s'.conns = s.conns ++ [Conn.start s.sock]) := by
  have hpass {pc : LoopPc} {s₁ : Sys} {es₁ : List SysEvent} (hpc : s.pc = pc)
      (hsock : s₁.pc.HasSocket = pc.HasSocket) (hsame : s₁.sock = s.sock ∧ s₁.conns = s.conns)
      (hget : acceptedFd (.loop i) = none) (hes : es₁.filterMap closedFd = [] ∧ .refused ∉ es₁) :
      s.StepAccounts (.loop i) s₁ es₁ ∧ (s₁.conns = s.conns ∨ s₁.conns = s.conns ++ [Conn.start s.sock]) := by
    refine ⟨stepAccounts_of_perm ?_ hes.2, .inl hsame.2⟩
    unfold Sys.fds
    rw [hget, hes.1, hsame.1, hsame.2, hsock, hpc]
    exact .refl _
  cases hpc : s.pc <;> cases i <;> simp only [loopStep, hpc, reduceCtorEq] at h
  case setRunning.tick | didStart.tick | incCount.tick | setIdle.tick | didKill.tick =>
    cases h
    exact hpass hpc rfl ⟨rfl, rfl⟩ rfl ⟨rfl, by simp⟩
  case head.tick | checkTerminate.tick | checkSuspend.tick | checkGuests.tick =>
    cases h
    exact hpass hpc (by dsimp only; split <;> rfl) ⟨rfl, rfl⟩ rfl ⟨rfl, by simp⟩
  case listen.tick | callAccept.tick | acceptFailed.tick =>
    split at h <;> cases h
    exact hpass hpc rfl ⟨rfl, rfl⟩ rfl ⟨rfl, by simp⟩
  case accept.accept r =>
    cases r with
    | none =>
        cases h
        exact hpass hpc rfl ⟨rfl, rfl⟩ rfl ⟨rfl, by simp⟩
    | some fd =>
        cases h
        refine ⟨stepAccounts_of_perm ?_ (by simp), .inl rfl⟩
        simp [Accounts, Sys.fds, hpc, LoopPc.HasSocket, acceptedFd]
  case shouldConnect.tick =>
    split at h <;> cases h
    exact hpass hpc rfl ⟨rfl, rfl⟩ rfl ⟨rfl, by simp⟩
  case shouldConnect.answer yes =>
    split at h
    · cases yes with
      | true =>
          cases h
          exact hpass hpc rfl ⟨rfl, rfl⟩ rfl ⟨rfl, by simp⟩
      | false =>
          -- nobody has the descriptor any more
          cases h
          refine ⟨⟨[s.sock.sockfd], by simp, ?_⟩, .inl rfl⟩
          unfold Accounts Sys.fds
          rw [hpc]
          show ([s.sock.sockfd] ++ s.conns.flatMap Conn.fds).Perm (s.conns.flatMap Conn.fds ++ [s.sock.sockfd])
          exact List.perm_append_comm
    · cases h
  case dispatch.tick =>
    cases h
    refine ⟨stepAccounts_of_perm ?_ (by simp), .inr rfl⟩
    unfold Accounts Sys.fds
    rw [hpc, List.flatMap_append]
    show ([s.sock.sockfd] ++ s.conns.flatMap Conn.fds).Perm (s.conns.flatMap Conn.fds ++ [s.sock.sockfd])
    exact List.perm_append_comm
  case release.tick =>
    split at h
    · cases h
    · next server freed hrel =>
        cases h
        refine hpass hpc rfl ⟨rfl, rfl⟩ rfl ?_
        cases freed <;> exact ⟨rfl, by simp [freedIf]⟩

/-- **A step accounts for its descriptors.** -/
theorem sysStep_fds (hcopied : ∀ c ∈ s.conns, c.Copied) (hs : sysStep calls s a = some (s', es)) :
    s.StepAccounts a s' es ∧ ∀ c ∈ s'.conns, c.Copied := by
  cases a with
  | owner =>
      simp only [sysStep] at hs
      split at hs
      · split at hs
        · cases hs
        · next server freed hrel =>
            cases hs
            refine ⟨stepAccounts_of_perm ?_ (by cases freed <;> simp [freedIf]), hcopied⟩
            cases freed <;> exact .refl _
      · cases hs
  | setStatus st =>
      cases hs
      exact ⟨stepAccounts_of_perm (.refl _) List.not_mem_nil, hcopied⟩
  | loop i =>
      obtain ⟨hacc, hconns⟩ := loopStep_fds hs
      refine ⟨hacc, ?_⟩
      rcases hconns with hconns | hconns <;> rw [hconns]
      · exact hcopied
      · intro c hc
        rcases List.mem_append.mp hc with hc | hc
        · exact hcopied c hc
        · rw [List.mem_singleton.mp hc]
          exact fun hcreate => absurd rfl hcreate
  | conn k i =>
      have hrest : s'.pc = s.pc ∧ s'.sock = s.sock ∧ .refused ∉ es := by
        obtain ⟨c, _, hshare⟩ := conn_share hs
        cases hshare with
        | giveBack c' _ _ server freed => exact ⟨rfl, rfl, by cases freed <;> simp [freedIf]⟩
        | take | leave | stay => exact ⟨rfl, rfl, by simp⟩
      obtain ⟨c, c', ces, freed, hc, hstep, hconns, rfl⟩ := sysStep_conn hs
      have hmem := List.mem_of_getElem? hc
      obtain ⟨hacc, hc'⟩ := connMove_fds (k := k) (connStep_move hstep) (hcopied c hmem)
      refine ⟨stepAccounts_of_perm ?_ hrest.2.2, ?_⟩
      · -- the other connections and the loop keep theirs
        rw [closedFd_conn]
        unfold Sys.fds
        rw [hrest.1, hrest.2.1, hconns]
        exact (Accounts.party hc hacc).frame _
      · rw [hconns]
        exact Parties.forall_mem_set hcopied hc'
  | queue k a =>
      obtain ⟨c, c', ces, hc, hother, hstep, rfl, rfl⟩ := sysStep_queue hs
      obtain ⟨hfds, hcloses, hc'⟩ := connOther_fds (k := k) hother hstep
      refine ⟨stepAccounts_of_perm ?_ (by simp), ?_⟩
      · have hclosed := closedFd_conn k ces false
        rw [show freedIf false = [] from rfl, List.append_nil] at hclosed
        rw [hclosed, hcloses]
        refine (Accounts.party hc ?_).frame _
        rw [hfds]
        exact .refl _
      · exact Parties.forall_mem_set hcopied (hc' (hcopied c (List.mem_of_getElem? hc)))

end System

/-! ## Results -/

/-- The table has what the loop and the connections have, and a descriptor for each refused connection. -/
def Sys.InTable (s : Sys) (t : Table IntT) (tr : List SysEvent) : Prop :=
  (∀ c ∈ s.conns, c.Copied) ∧
    ∃ refused : List IntT, refused.length = tr.count .refused ∧ Balanced t (s.fds ++ refused)

section Run

variable {calls : SocketCalls} {server : Server} {preprocessQueue operatingQueue : Bool} {s₀ s : Sys}
variable {t : Table IntT} {acts : List SysAct} {tr : List SysEvent}

theorem inTable_step {s' : Sys} {t' : Table IntT} {a : SysAct} {es : List SysEvent} (hi : s.InTable t tr)
    (h : withTable (sysStep calls) acceptedFd closedFd (s, t) a = some ((s', t'), es)) :
    s'.InTable t' (tr ++ es) := by
  obtain ⟨hcopied, lost, hlost, hbalanced⟩ := hi
  obtain ⟨⟨refused, hrefused, hacc⟩, hcopied'⟩ := sysStep_fds hcopied (withTable_eq_some h).1
  refine ⟨hcopied', lost ++ refused, ?_, ?_⟩
  · rw [List.length_append, List.count_append, hlost, hrefused]
  · have hframe := (hacc.frame lost).of_perm List.perm_append_comm (show (lost ++ (s'.fds ++ refused)).Perm
      (s'.fds ++ (lost ++ refused)) from List.perm_append_comm_assoc ..)
    exact balanced_step hbalanced h hframe

/-- **The descriptors of a server started by `SXServerStart`.** In every interleaving of the owner, the accept loop,
    the connections and whoever changes statuses: what is open is what the loop and the connections that have not
    closed theirs have, and one descriptor for each connection refused; no two are the same, so no connection
    receives from or closes the socket of another; and no `close` is of a descriptor that is not open. -/
theorem server_descriptors
    (hstart : sxServerStart (some server) preprocessQueue operatingQueue = some (sxSuccess, some s₀))
    (hrun : Machine.run (withTable (sysStep calls) acceptedFd closedFd) (s₀, {}) acts = some ((s, t), tr)) :
    t.stray = [] ∧ t.opened.Nodup ∧
      ∃ refused, refused.length = tr.count .refused ∧ t.opened.Perm (s.fds ++ refused) := by
  have h0 : s₀.InTable {} [] := by
    rw [sxServerStart_spec hstart]
    exact ⟨fun c hc => (List.not_mem_nil hc).elim, [], rfl, .refl _, List.nodup_nil, rfl⟩
  have hi : s.InTable t ([] ++ tr) := Machine.run_invariant (I := fun p tr => p.1.InTable p.2 tr)
    (fun _ _ _ _ _ hi h => inTable_step hi h) h0 hrun
  obtain ⟨_, refused, hrefused, hbalanced⟩ := hi
  exact ⟨hbalanced.stray, hbalanced.nodup, refused, hrefused, hbalanced.opened⟩

end Run

/-- A server that asks whom it lets in. -/
def choosyServer : Server := { sock := some { sockfd := 3 }, dataSize := 4, maxGuest := 4, shouldConnect := true }

/-- The accept loop from its head to the answer of `shouldConnect`. -/
def askedFor (fd : IntT) (yes : Bool) : List SysAct :=
  List.replicate 7 (.loop .tick) ++ [.loop (.accept (some fd)), .loop (.answer yes)]

/-- The loop dispatches a connection, which ends. The next one gets its descriptor again, and is refused, and the one
    after it is dispatched. -/
def refusesSecond : List SysAct :=
  [.loop .tick, .loop .tick] ++ askedFor 5 true ++ [.loop .tick] ++
  List.replicate 9 (.conn 0 .tick) ++ [.conn 0 (.recv none), .conn 0 .tick, .conn 0 .tick] ++
  askedFor 5 false ++ askedFor 6 true ++ [.loop .tick]

theorem server_descriptors_refusesSecond :
    ∃ s₀ s t tr, sxServerStart (some choosyServer) true true = some (sxSuccess, some s₀) ∧
      Machine.run (withTable (sysStep {}) acceptedFd closedFd) (s₀, {}) refusesSecond = some ((s, t), tr) ∧
      t.opened = [6, 5] ∧ s.fds = [6] ∧
      ∃ refused, refused.length = tr.count .refused ∧ t.opened.Perm (s.fds ++ refused) := by
  have hstart : sxServerStart (some choosyServer) true true = some (sxSuccess, some _) := rfl
  obtain ⟨s, t, tr, hrun, hopened, hfds⟩ : ∃ s t tr, Machine.run (withTable (sysStep {}) acceptedFd closedFd)
      ({ server := { choosyServer with obj := sxRetain choosyServer.obj } }, {}) refusesSecond = some ((s, t), tr) ∧
      t.opened = [6, 5] ∧ s.fds = [6] := ⟨_, _, _, rfl, rfl, rfl⟩
  exact ⟨_, s, t, tr, hstart, hrun, hopened, hfds, (server_descriptors hstart hrun).2.2⟩

end SpartanX
