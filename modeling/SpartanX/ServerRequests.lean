import SpartanX.Lifetime

/-!
# `ServerRequests` — a started server under suspend and resume requests

The owner of a started server keeps its reference and asks for suspensions and resumptions of the server and of
the queues of its connections, through `SXSuspendObject` and `SXResumeObject`, and for its end. The status of
the server is written by these requests and by the dispatched block of `SXServerStart`, in its first
statement and at its end. The last write finds `should_terminate`, which refuses both requests; the first one
overwrites whatever was granted before the block ran (`suspend_lost_at_start`). So a granted suspension lasts
until it is ended exactly if none is in force when the block starts (`suspend_kept_iff`).

## Contents
- **The system.** `ServedAct`, `ServedEvent`, `servedStep`.
- **What a step does to the server.** `Sys.Held`: the server is not deallocated; `LoopPc.writes`: the status
  writes of the loop (`loopStep_status`); `Sys.Held.loop`, `Sys.Held.conn`, `Sys.Held.queue`.
- **Suspensions of the server.** `suspendInForce`, `SuspendKept`, `StartsUnsuspended`, `suspend_kept_iff`.
-/

namespace SpartanX

open CInt

/-! ## The system -/

/-- `SXSuspendObject(server)`. -/
def Server.suspendObject (server : Server) : SXError × Server :=
  let r := sxSuspendObject (some server.toRuntimeObject)
  (r.1, { server with toRuntimeObject := r.2.getD server.toRuntimeObject })

/-- `SXResumeObject(server)`. -/
def Server.resumeObject (server : Server) : SXError × Server :=
  let r := sxResumeObject (some server.toRuntimeObject)
  (r.1, { server with toRuntimeObject := r.2.getD server.toRuntimeObject })

/-- A step of a started server: the loop, a connection block, a request on the server or on the queue of a
    connection, or the write of `should_terminate` that ends the server. -/
inductive ServedAct
  | loop (i : LoopInput)
  | conn (k : Nat) (i : Input)
  | suspendServer
  | resumeServer
  | suspendQueue (k : Nat)
  | resumeQueue (k : Nat)
  | kill
  deriving Repr

/-- What can be observed: the events of the started server, and the requests on it with their results. -/
inductive ServedEvent
  | sys (e : SysEvent)
  | suspendServer (err : SXError)
  | resumeServer (err : SXError)
  | killed
  deriving Repr

/-- A step of the started server without a request on it. -/
def sysServed (calls : SocketCalls) (s : Sys) (a : SysAct) : Option (Sys × List ServedEvent) :=
  match sysStep calls s a with
  | none         => none
  | some (s', es) => some (s', es.map .sys)

/-- One step of a started server under requests. -/
def servedStep (calls : SocketCalls) (s : Sys) : ServedAct → Option (Sys × List ServedEvent)
  | .loop i         => sysServed calls s (.loop i)
  | .conn k i       => sysServed calls s (.conn k i)
  | .suspendServer  =>
    some ({ s with server := s.server.suspendObject.2 }, [.suspendServer s.server.suspendObject.1])
  | .resumeServer   =>
    some ({ s with server := s.server.resumeObject.2 }, [.resumeServer s.server.resumeObject.1])
  | .suspendQueue k => sysServed calls s (.queue k .suspend)
  | .resumeQueue k  => sysServed calls s (.queue k .resume)
  | .kill           => some ({ s with server := { s.server with status := .shouldTerminate } }, [.killed])

/-- What a suspend request does to a server. -/
theorem Server.suspendObject_spec (server : Server) :
    (server.status ∈ [Status.idle, .running] ∧
      server.suspendObject = (sxSuccess, { server with status := .suspend })) ∨
    (server.status ∉ [Status.idle, .running] ∧
      ∃ err, err ≠ sxSuccess ∧ server.suspendObject = (err, server)) := by
  rcases sxSuspendObject_spec server.toRuntimeObject with ⟨hst, h⟩ | ⟨hst, err, herr, h⟩
  · exact Or.inl ⟨hst, by simp [Server.suspendObject, h]⟩
  · exact Or.inr ⟨hst, err, herr, by simp [Server.suspendObject, h]⟩

/-- What a resume request does to a server. -/
theorem Server.resumeObject_spec (server : Server) :
    (server.status ∈ [Status.suspend, .idle] ∧
      server.resumeObject = (sxSuccess, { server with status := .resuming })) ∨
    (server.status ∉ [Status.suspend, .idle] ∧
      ∃ err, err ≠ sxSuccess ∧ server.resumeObject = (err, server)) := by
  rcases sxResumeObject_spec server.toRuntimeObject with ⟨hst, h⟩ | ⟨hst, err, herr, h⟩
  · exact Or.inl ⟨hst, by simp [Server.resumeObject, h]⟩
  · exact Or.inr ⟨hst, err, herr, by simp [Server.resumeObject, h]⟩

theorem sysServed_some {calls : SocketCalls} {s s' : Sys} {a : SysAct} {es : List ServedEvent}
    (h : sysServed calls s a = some (s', es)) :
    ∃ ses, sysStep calls s a = some (s', ses) ∧ es = ses.map .sys := by
  unfold sysServed at h
  split at h
  · cases h
  · rename_i hs
    cases h
    exact ⟨_, hs, rfl⟩

/-! ## What a step does to the server -/

/-- The owner has its reference, and the count of the server covers all who are going to give one back, or is at
    the sentinel. -/
def Sys.Held (s : Sys) : Prop :=
  s.owner = true ∧ ((s.holders : Int) ≤ s.server.obj.refCount ∨ s.server.obj.refCount = sxWeakObject)

/-- What the loop writes to the status at a statement. -/
def LoopPc.writes : LoopPc → Status → Status
  | .setRunning, _ => .running
  | .setIdle, _    => .idle
  | _, st          => st

section Steps

variable {calls : SocketCalls} {s s' : Sys} {ses : List SysEvent}

/-- A release by one of several holders does not deallocate the server: the count stays in line, and only the
    header changes. -/
theorem Sys.Held.release {server' : Server} {freed : Bool} (hh : s.Held) (htwo : 2 ≤ s.holders)
    (hrel : sxReleaseServer calls s.server = some (server', freed)) :
    freed = false ∧ server'.status = s.server.status ∧
      ((s.holders : Int) - 1 ≤ server'.obj.refCount ∨ server'.obj.refCount = sxWeakObject) := by
  rcases sxReleaseServer_cases hrel with ⟨hone, _, _⟩ | ⟨_, hfreed, obj, rfl, hobj⟩
  · exfalso
    rcases hh.2 with h | h
    · omega
    · rw [hone] at h
      exact absurd h (by decide)
  · refine ⟨hfreed, rfl, ?_⟩
    show _ ≤ obj.refCount ∨ obj.refCount = _
    rw [hobj]
    rcases hh.2 with h | h
    · split
      · exact .inr ‹_›
      · exact .inl (by omega)
    · rw [if_pos h]
      exact .inr h

/-- A step of the loop keeps the server. -/
theorem Sys.Held.loop (hh : s.Held) (hm : LoopMove calls s s' ses) : s'.Held := by
  obtain ⟨howner, hcount⟩ := hh
  cases hm with
  | touch pc' st es hholds hslot hinc hes =>
      refine ⟨howner, ?_⟩
      simpa [Sys.holders, hholds.1, hholds.2] using hcount
  | enter hpc _ | inc hpc | accepted hpc _ | failed hpc | refused hpc | didKill hpc =>
      refine ⟨howner, ?_⟩
      simpa [Sys.holders, hpc, LoopPc.Holds] using hcount
  | dispatch hpc =>
      have hstart : Conn.Holds (Conn.start s.sock) = false := rfl
      refine ⟨howner, ?_⟩
      simpa [Sys.holders, hpc, LoopPc.Holds, hstart] using hcount
  | release hpc server' freed hrel =>
      have htwo : 2 ≤ s.holders := by
        simp only [Sys.holders, howner, hpc, LoopPc.Holds, if_true]
        omega
      have hafter : Sys.holders { s with pc := .didKill, server := server' } + 1 = s.holders := by
        simp only [Sys.holders, hpc, LoopPc.Holds, if_true, Bool.false_eq_true, if_false]
        omega
      obtain ⟨_, _, hcount'⟩ := Sys.Held.release ⟨howner, hcount⟩ htwo hrel
      refine ⟨howner, hcount'.imp_left ?_⟩
      intro h
      show (Sys.holders { s with pc := .didKill, server := server' } : Int) ≤ server'.obj.refCount
      omega

/-- A step of the loop writes the status of the server at two statements only. Afterwards it is not at the first
    one, and at the second one only when it has found the status that ends it. -/
theorem loopStep_status {i : LoopInput} (hh : s.Held) (h : loopStep calls s i = some (s', ses)) :
    s'.server.status = s.pc.writes s.server.status ∧ s'.pc ≠ .setRunning ∧
      (s'.pc = .setIdle → s'.server.status = .shouldTerminate) := by
  cases hpc : s.pc <;> cases i <;> simp only [loopStep, hpc, reduceCtorEq] at h
  case head.tick | checkTerminate.tick =>
    cases h
    refine ⟨rfl, ?_, ?_⟩
    · show (if _ then _ else _) ≠ _
      split <;> simp
    · intro hidle
      dsimp only at hidle ⊢
      split at hidle <;> simp_all
  case checkSuspend.tick | checkGuests.tick =>
    cases h
    refine ⟨rfl, ?_, ?_⟩ <;> dsimp only <;> split <;> simp
  case listen.tick | callAccept.tick =>
    split at h
    · cases h
    · cases h
      exact ⟨rfl, by simp, by simp⟩
  case accept.accept r =>
    cases r with
    | none | some fd =>
        cases h
        exact ⟨rfl, by simp, by simp⟩
  case acceptFailed.tick | shouldConnect.tick =>
    split at h
    · first
      | cases h; exact ⟨rfl, by simp, by simp⟩
      | cases h
    · first
      | cases h; exact ⟨rfl, by simp, by simp⟩
      | cases h
  case shouldConnect.answer yes =>
    split at h
    · split at h <;> cases h <;> exact ⟨rfl, by simp, by simp⟩
    · cases h
  case release.tick =>
    split at h
    · cases h
    · rename_i server freed hrel
      cases h
      have htwo : 2 ≤ s.holders := by
        simp only [Sys.holders, hh.1, hpc, LoopPc.Holds, if_true]
        omega
      exact ⟨(hh.release htwo hrel).2.1, by simp, by simp⟩
  all_goals
    cases h
    exact ⟨rfl, by simp, by simp⟩

/-- A step of a connection keeps the server and its status, and does not move the loop. -/
theorem Sys.Held.conn {k : Nat} {c : Conn} (hh : s.Held) (hc : s.conns[k]? = some c)
    (hm : ConnShare calls s k c s' ses) :
    s'.Held ∧ s'.server.status = s.server.status ∧ s'.pc = s.pc := by
  obtain ⟨howner, hcount⟩ := hh
  cases hm with
  | take c' hpc hpc' =>
      have hold : c.Holds = false := by simp [Conn.Holds, hpc, ConnPc.phase]
      have hold' : c'.Holds = true := by simp [Conn.Holds, hpc', ConnPc.phase]
      have hset := Parties.countP_set_gain hc hold hold'
      refine ⟨⟨howner, ?_⟩, rfl, rfl⟩
      show _ ≤ (sxRetain s.server.obj).refCount ∨ (sxRetain s.server.obj).refCount = sxWeakObject
      rw [refCount_sxRetain]
      by_cases hw : s.server.obj.refCount = sxWeakObject
      · rw [if_pos hw]
        exact .inr hw
      · rw [if_neg hw]
        left
        have hle := hcount.resolve_right hw
        unfold Sys.holders at hle ⊢
        dsimp only
        omega
  | giveBack c' hpc hpc' server' freed hrel =>
      have hold : c.Holds = true := by simp [Conn.Holds, hpc, ConnPc.phase]
      have hold' : c'.Holds = false := by simp [Conn.Holds, hpc', ConnPc.phase]
      have hset := Parties.countP_set_loss hc hold hold'
      have htwo : 2 ≤ s.holders := by
        simp only [Sys.holders, howner, if_true]
        omega
      obtain ⟨_, hst, hcount'⟩ := Sys.Held.release ⟨howner, hcount⟩ htwo hrel
      refine ⟨⟨howner, hcount'.imp_left ?_⟩, hst, rfl⟩
      intro h
      unfold Sys.holders at h ⊢
      dsimp only at h ⊢
      omega
  | leave c' hpc hpc' =>
      have hhold : c'.Holds = c.Holds := by simp [Conn.Holds, hpc, hpc', ConnPc.phase]
      refine ⟨⟨howner, ?_⟩, rfl, rfl⟩
      simpa [Sys.holders, Parties.countP_set_eq hc hhold] using hcount
  | stay c' es hphase hgone hexit =>
      have hhold : c'.Holds = c.Holds := by simp [Conn.Holds, hphase]
      refine ⟨⟨howner, ?_⟩, rfl, rfl⟩
      simpa [Sys.holders, Parties.countP_set_eq hc hhold] using hcount

/-- A request on the queue of a connection does nothing to the server or to the loop. -/
theorem Sys.Held.queue {k : Nat} {a : ConnAct} (hh : s.Held)
    (h : sysStep calls s (.queue k a) = some (s', ses)) :
    s'.Held ∧ s'.server.status = s.server.status ∧ s'.pc = s.pc := by
  obtain ⟨c, q, e, hc, rfl, rfl, _⟩ := queue_share h
  have hhold : Conn.Holds { c with queue := q } = c.Holds := rfl
  refine ⟨⟨hh.1, ?_⟩, rfl, rfl⟩
  simpa [Sys.holders, Parties.countP_set_eq hc hhold] using hh.2

end Steps

/-! ## Suspensions of the server -/

/-- Whether a granted suspend request on the server is in force after one more event: the next granted resume
    request ends it, and so does a kill. -/
def noteRequest (inForce : Bool) : ServedEvent → Bool
  | .suspendServer err => inForce || err == sxSuccess
  | .resumeServer err  => inForce && err != sxSuccess
  | .killed            => false
  | .sys _             => inForce

/-- Whether a granted suspend request on the server is in force after a trace. -/
def suspendInForce (tr : List ServedEvent) : Bool := tr.foldl noteRequest false

/-- A suspension in force is written in the status of the server. -/
def SuspendKept (s : Sys) (tr : List ServedEvent) : Prop :=
  suspendInForce tr = true → s.server.status = .suspend

/-- The condition on a step: if it is the first statement of the dispatched block, no suspension is in force. -/
def StartsUnsuspended (tr : List ServedEvent) (s : Sys) : ServedAct → Prop
  | .loop _ => s.pc = .setRunning → suspendInForce tr = false
  | _       => True

instance (tr : List ServedEvent) (s : Sys) : (a : ServedAct) → Decidable (StartsUnsuspended tr s a)
  | .loop _ => inferInstanceAs (Decidable (_ → _))
  | .conn .. | .suspendServer | .resumeServer | .suspendQueue _ | .resumeQueue _ | .kill =>
    inferInstanceAs (Decidable True)

theorem suspendInForce_sys (tr : List ServedEvent) (ses : List SysEvent) :
    suspendInForce (tr ++ ses.map .sys) = suspendInForce tr := by
  unfold suspendInForce
  rw [List.foldl_append]
  apply Machine.foldl_unchanged
  intro e he
  obtain ⟨e', _, rfl⟩ := List.mem_map.mp he
  rfl

theorem suspendInForce_concat (tr : List ServedEvent) (e : ServedEvent) :
    suspendInForce (tr ++ [e]) = noteRequest (suspendInForce tr) e := by
  unfold suspendInForce
  rw [List.foldl_append]
  rfl

/-- The invariant: the server is not deallocated, a suspension in force is in its status, and a loop about to
    end has found `should_terminate` there. -/
structure ServedInv (s : Sys) (tr : List ServedEvent) : Prop where
  held   : s.Held
  kept   : SuspendKept s tr
  ending : s.pc = .setIdle → s.server.status = .shouldTerminate

section Requests

variable {calls : SocketCalls} {s s' : Sys} {tr es : List ServedEvent}

/-- A step that leaves the status and the loop alone keeps the invariant. -/
theorem ServedInv.pass {ses : List SysEvent} (hi : ServedInv s tr)
    (h : s'.Held ∧ s'.server.status = s.server.status ∧ s'.pc = s.pc) :
    ServedInv s' (tr ++ ses.map .sys) := by
  obtain ⟨hheld, hst, hpc⟩ := h
  refine ⟨hheld, ?_, ?_⟩
  · intro hf
    rw [suspendInForce_sys] at hf
    exact hst.trans (hi.kept hf)
  · intro hidle
    exact hst.trans (hi.ending (hpc.symm.trans hidle))

/-- The invariant survives every step that meets the condition. -/
theorem servedInv_step {a : ServedAct} (hi : ServedInv s tr) (hcond : StartsUnsuspended tr s a)
    (hs : servedStep calls s a = some (s', es)) : ServedInv s' (tr ++ es) := by
  cases a with
  | loop i =>
      obtain ⟨ses, hsys, rfl⟩ := sysServed_some hs
      obtain ⟨hst, _, hending⟩ := loopStep_status hi.held hsys
      refine ⟨hi.held.loop (loopStep_move hsys), ?_, hending⟩
      intro hf
      rw [suspendInForce_sys] at hf
      have hkept := hi.kept hf
      -- of the two statements that write, one is excluded by the condition, the other by the status it needs
      have hno : s.pc ≠ .setRunning ∧ s.pc ≠ .setIdle := by
        constructor
        · intro hpc
          rw [hcond hpc] at hf
          cases hf
        · intro hpc
          rw [hi.ending hpc] at hkept
          cases hkept
      rw [hst]
      cases hpc : s.pc <;> simp_all [LoopPc.writes]
  | conn k i =>
      obtain ⟨ses, hsys, rfl⟩ := sysServed_some hs
      obtain ⟨c, hc, hm⟩ := conn_share hsys
      exact hi.pass (hi.held.conn hc hm)
  | suspendQueue k | resumeQueue k =>
      obtain ⟨ses, hsys, rfl⟩ := sysServed_some hs
      exact hi.pass (hi.held.queue hsys)
  | suspendServer =>
      simp only [servedStep] at hs
      cases hs
      rcases s.server.suspendObject_spec with ⟨hst, h⟩ | ⟨_, err, herr, h⟩ <;> rw [h]
      · refine ⟨hi.held, fun _ => rfl, ?_⟩
        intro hidle
        rw [hi.ending hidle] at hst
        simp at hst
      · refine ⟨hi.held, ?_, hi.ending⟩
        intro hf
        rw [suspendInForce_concat] at hf
        exact hi.kept (by simpa [noteRequest, herr] using hf)
  | resumeServer =>
      simp only [servedStep] at hs
      cases hs
      rcases s.server.resumeObject_spec with ⟨hst, h⟩ | ⟨_, err, herr, h⟩ <;> rw [h]
      · refine ⟨hi.held, ?_, ?_⟩
        · intro hf
          rw [suspendInForce_concat] at hf
          simp [noteRequest] at hf
        · intro hidle
          rw [hi.ending hidle] at hst
          simp at hst
      · refine ⟨hi.held, ?_, hi.ending⟩
        intro hf
        rw [suspendInForce_concat] at hf
        exact hi.kept (by simpa [noteRequest, herr] using hf)
  | kill =>
      simp only [servedStep] at hs
      cases hs
      refine ⟨hi.held, ?_, fun _ => rfl⟩
      intro hf
      rw [suspendInForce_concat] at hf
      cases hf

/-- A step that does not meet it overwrites a suspension in force. -/
theorem suspendKept_broken {a : ServedAct} (hi : ServedInv s tr) (hcond : ¬ StartsUnsuspended tr s a)
    (hs : servedStep calls s a = some (s', es)) : ¬ SuspendKept s' (tr ++ es) := by
  cases a with
  | loop i =>
      obtain ⟨ses, hsys, rfl⟩ := sysServed_some hs
      obtain ⟨hpc, hf⟩ := Classical.not_imp.mp hcond
      obtain ⟨hst, _, _⟩ := loopStep_status hi.held hsys
      rw [hpc] at hst
      intro hkept
      have hsus := hkept (by rw [suspendInForce_sys]; simpa using hf)
      rw [hst] at hsus
      cases hsus
  | _ => exact absurd trivial hcond

end Requests

/-- **A granted suspension lasts, if none is in force when the block starts.** In every run of a started server
    whose owner keeps its reference: a granted suspend request on the server stays in its status until a granted
    resume request or a kill, in every state of the run, iff none is in force when the dispatched block executes
    its first statement. -/
theorem suspend_kept_iff {calls : SocketCalls} {server : Server} {preprocessQueue operatingQueue : Bool}
    {s₀ s : Sys} {acts : List ServedAct} {tr : List ServedEvent} (howned : 0 < server.obj.refCount)
    (hstart : sxServerStart (some server) preprocessQueue operatingQueue = some (sxSuccess, some s₀))
    (hrun : Machine.run (servedStep calls) s₀ acts = some (s, tr)) :
    Machine.Throughout (servedStep calls) SuspendKept [] s₀ acts ↔
      Machine.Guarded (servedStep calls) StartsUnsuspended [] s₀ acts := by
  have h0 : ServedInv s₀ [] := by
    rw [sxServerStart_spec hstart]
    refine ⟨⟨rfl, ?_⟩, nofun, nofun⟩
    show (2 : Int) ≤ (sxRetain server.obj).refCount ∨ (sxRetain server.obj).refCount = sxWeakObject
    rw [refCount_sxRetain]
    split
    · exact .inr ‹_›
    · exact .inl (by omega)
  have hstep (s₁ : Sys) (tr₁ : List ServedEvent) (a : ServedAct) (s₂ : Sys) (es : List ServedEvent)
      (hi : ServedInv s₁ tr₁) (hc : StartsUnsuspended tr₁ s₁ a) (hs : servedStep calls s₁ a = some (s₂, es)) :
      ServedInv s₂ (tr₁ ++ es) := servedInv_step hi hc hs
  have hbreak (s₁ : Sys) (tr₁ : List ServedEvent) (a : ServedAct) (s₂ : Sys) (es : List ServedEvent)
      (hi : ServedInv s₁ tr₁) (hc : ¬ StartsUnsuspended tr₁ s₁ a)
      (hs : servedStep calls s₁ a = some (s₂, es)) : ¬ SuspendKept s₂ (tr₁ ++ es) := suspendKept_broken hi hc hs
  exact Machine.throughout_iff_guarded (fun _ _ hi => hi.kept) hstep hbreak h0 hrun

/-- A server that is suspended after its block has started, resumed and killed; its loop ends, and it is
    suspended once more. -/
def suspendedTwice : List ServedAct :=
  [.loop .tick, .suspendServer, .loop .tick, .loop .tick, .resumeServer, .loop .tick, .kill, .loop .tick,
    .loop .tick, .suspendServer]

/-- Its suspensions last. -/
theorem suspend_kept_iff_twice :
    ∃ s₀ s tr, sxServerStart (some oneGuest) true true = some (sxSuccess, some s₀) ∧
      Machine.run (servedStep {}) s₀ suspendedTwice = some (s, tr) ∧
      Machine.Throughout (servedStep {}) SuspendKept [] s₀ suspendedTwice := by
  have hstart : sxServerStart (some oneGuest) true true = some (sxSuccess, some _) := rfl
  have hrun : Machine.run (servedStep {}) { server := { oneGuest with obj := sxRetain oneGuest.obj } }
      suspendedTwice = some (_, _) := rfl
  exact ⟨_, _, _, hstart, hrun, (suspend_kept_iff (by decide) hstart hrun).mpr (by decide +kernel)⟩

/-- **A suspension granted before the dispatched block runs is lost**: its first statement writes `running`. -/
theorem suspend_lost_at_start :
    ∃ s₀ s tr, sxServerStart (some oneGuest) true true = some (sxSuccess, some s₀) ∧
      Machine.run (servedStep {}) s₀ [.suspendServer, .loop .tick] = some (s, tr) ∧
      suspendInForce tr = true ∧ s.server.status = .running ∧
      ¬ Machine.Throughout (servedStep {}) SuspendKept [] s₀ [.suspendServer, .loop .tick] := by
  have hrun : Machine.run (servedStep {}) { server := { oneGuest with obj := sxRetain oneGuest.obj } }
      [.suspendServer, .loop .tick] = some (_, [.suspendServer sxSuccess, .sys .access]) := rfl
  refine ⟨_, _, _, rfl, hrun, rfl, rfl, ?_⟩
  intro h
  have hlast := ((h.2 _ _ rfl).2 _ _ rfl).here rfl
  cases hlast

end SpartanX
