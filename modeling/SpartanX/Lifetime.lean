import SpartanX.AcceptLoop
import SpartanX.Kqueue.Loop

/-!
# `Lifetime` — who keeps a started server alive

Under `SXServerStart` the owner, the accept loop and every connection block have a reference of their own; but
the loop reads the server once more after it has given its reference back, and a block takes its reference
only after it has started. Under `SXServerStart_kqueue` the loop has no reference at all: the start function
takes one and gives it back itself. So a server can be deallocated under its loop (`use_after_free`). But in a run in
which every release that finds the count at `1` comes when the loop has ended and no dispatched block is still
without its reference, nobody touches a deallocated server (`no_use_after_free`).

## Contents
- **The accept loop.** `Sys.holders`, `Sys.LastRelease`, `RefInv`, `refInv_step`.
- **The event loop.** `Kq.LastRelease`, `KqRefInv`.
- **Results.** `no_use_after_free`, `use_after_free`.
-/

namespace SpartanX

open CInt

/-! ## The accept loop -/

/-- A connection block between its `SXRetain(server)` and its `SXRelease(server)`. -/
def Conn.Holds (c : Conn) : Bool := c.pc.phase = .holding

/-- The references to the server that somebody is going to give back. -/
def Sys.holders (s : Sys) : Nat :=
  (if s.owner then 1 else 0) + (if s.pc.Holds then 1 else 0) + s.conns.countP Conn.Holds

/-- The step is an `SXRelease` of the server. -/
def Sys.Releases (s : Sys) : SysAct → Prop
  | .owner    => True
  | .loop _   => s.pc = .release
  | .conn k _ => (s.conns[k]?.map (·.pc)) = some .releaseServer
  | _         => False

/-- The loop has ended, and every dispatched block has executed its `SXRetain(server)`. -/
def Sys.Settled (s : Sys) : Prop := s.pc = .done ∧ ∀ c ∈ s.conns, c.pc.phase ≠ .pending

/-- The condition on a step: if it is the release of the last reference, the system is settled. -/
def Sys.LastRelease (_ : List SysEvent) (s : Sys) (a : SysAct) : Prop :=
  s.Releases a → s.server.obj.refCount = 1 → s.Settled

instance (s : Sys) : Decidable s.Settled := inferInstanceAs (Decidable (_ ∧ _))

instance (s : Sys) : (a : SysAct) → Decidable (s.Releases a)
  | .owner    => inferInstanceAs (Decidable True)
  | .loop _   => inferInstanceAs (Decidable (s.pc = .release))
  | .conn k _ => inferInstanceAs (Decidable ((s.conns[k]?.map (·.pc)) = some .releaseServer))
  | .setStatus _ | .queue _ _ => inferInstanceAs (Decidable False)

instance (tr : List SysEvent) (s : Sys) (a : SysAct) : Decidable (s.LastRelease tr a) :=
  inferInstanceAs (Decidable (_ → _ → _))

/-- The invariant. While the server is there its count is the number of those who hold it, or the sentinel;
    once it is deallocated nobody holds it, the loop has ended and no block is still to take a reference. -/
structure RefInv (s : Sys) (tr : List SysEvent) : Prop where
  counted : .freed ∉ tr → s.server.obj.refCount = s.holders ∨ s.server.obj.refCount = sxWeakObject
  settled : .freed ∈ tr → s.holders = 0 ∧ s.Settled
  safe    : NoUseAfterFree tr

section Refs

variable {calls : SocketCalls} {s s' : Sys} {tr es : List SysEvent}

/-- A step that deallocates nothing, and after deallocation touches nothing, keeps the invariant if it keeps
    the count in line with the holders and a settled system settled. -/
theorem RefInv.keep (hi : RefInv s tr) (hes : .freed ∉ es)
    (hcount : s.server.obj.refCount = s.holders ∨ s.server.obj.refCount = sxWeakObject →
      s'.server.obj.refCount = s'.holders ∨ s'.server.obj.refCount = sxWeakObject)
    (hsettled : s.holders = 0 → s.Settled →
      s'.holders = 0 ∧ s'.Settled ∧ ∀ e ∈ es, e.Accesses = false) : RefInv s' (tr ++ es) := by
  refine ⟨?_, ?_, hi.safe.append (noUseAfterFree_of_not_mem hes) ?_⟩
  · intro h
    exact hcount (hi.counted fun ht => h (List.mem_append_left es ht))
  · intro h
    have ht : .freed ∈ tr := (List.mem_append.mp h).resolve_right hes
    obtain ⟨hz, hs⟩ := hi.settled ht
    exact ⟨(hsettled hz hs).1, (hsettled hz hs).2.1⟩
  · intro h
    obtain ⟨hz, hs⟩ := hi.settled h
    exact (hsettled hz hs).2.2

/-- A release by somebody who holds the server keeps the invariant if it meets the condition: `s'` is the state
    after it, with one holder less and everything else that counts unchanged. -/
theorem RefInv.release {server' : Server} {freed : Bool} {e : List SysEvent} (hi : RefInv s tr)
    (hrel : sxReleaseServer calls s.server = some (server', freed)) (hserver : s'.server = server')
    (hholders : s'.holders + 1 = s.holders) (hlast : s.server.obj.refCount = 1 → s'.Settled)
    (he : .freed ∉ e) : RefInv s' (tr ++ (e ++ freedIf freed)) := by
  have hlive : .freed ∉ tr := fun h => by
    have hz := (hi.settled h).1
    omega
  have hcount := hi.counted hlive
  have hsafe : NoUseAfterFree (tr ++ (e ++ freedIf freed)) :=
    hi.safe.append (noUseAfterFree_release he freed) fun h => absurd h hlive
  rcases sxReleaseServer_cases hrel with ⟨hone, rfl, rfl⟩ | ⟨hne, rfl, obj, rfl, hobj⟩
  · refine ⟨fun h => absurd (by simp [freedIf]) h, fun _ => ⟨?_, hlast hone⟩, hsafe⟩
    rcases hcount with h | h
    · omega
    · rw [hone] at h
      exact absurd h (by decide)
  · refine ⟨?_, ?_, hsafe⟩
    · intro _
      rw [hserver]
      show obj.refCount = _ ∨ obj.refCount = _
      rw [hobj]
      rcases hcount with h | h
      · split
        · exact .inr ‹_›
        · exact .inl (by omega)
      · rw [if_pos h]
        exact .inr h
    · intro h
      simp [freedIf, hlive, he] at h

/-- The invariant survives every move of the loop that meets the condition. -/
theorem refInv_loop (hm : LoopMove calls s s' es) (hi : RefInv s tr)
    (hlast : s.pc = .release → s.server.obj.refCount = 1 → s.Settled) : RefInv s' (tr ++ es) := by
  have hended {pc : LoopPc} (hpc : s.pc = pc) (hne : pc ≠ .done) : ¬ s.Settled :=
    fun h => hne (hpc.symm.trans h.1)
  cases hm with
  | touch pc' st es hholds hslot hinc hes =>
      have hkeep : Sys.holders { s with pc := pc', server := { s.server with status := st } } = s.holders := by
        simp [Sys.holders, hholds.1, hholds.2]
      have hne : ¬ s.Settled := fun h => by
        rw [h.1] at hholds
        cases hholds.1
      refine hi.keep (by rcases hes with rfl | rfl <;> simp) ?_ (fun _ h => absurd h hne)
      rw [hkeep]
      exact id
  | enter hpc hlt =>
      refine hi.keep (by simp) ?_ (fun _ h => absurd h (hended hpc (by simp)))
      simp [Sys.holders, hpc, LoopPc.Holds]
  | inc hpc | accepted hpc | failed hpc | refused hpc =>
      refine hi.keep (by simp) ?_ (fun _ h => absurd h (hended hpc (by simp)))
      simp [Sys.holders, hpc, LoopPc.Holds]
  | dispatch hpc =>
      refine hi.keep (by simp) ?_ (fun _ h => absurd h (hended hpc (by simp)))
      have hstart : Conn.Holds (Conn.start s.sock) = false := rfl
      simp [Sys.holders, hpc, LoopPc.Holds, hstart]
  | release hpc server' freed hrel =>
      have hlast' (h : s.server.obj.refCount = 1) :
          Sys.Settled { s with pc := .didKill, server := server' } :=
        absurd (hlast hpc h) (hended hpc (by simp))
      refine hi.release (e := [.access]) hrel rfl ?_ hlast' (by simp)
      simp [Sys.holders, hpc, LoopPc.Holds]
      omega
  | didKill hpc =>
      refine hi.keep (by simp) ?_ (fun _ h => absurd h (hended hpc (by simp)))
      simp [Sys.holders, hpc, LoopPc.Holds]

/-- The invariant survives every step of a connection that meets the condition. -/
theorem refInv_conn {k : Nat} {c : Conn} (hc : s.conns[k]? = some c) (hm : ConnShare calls s k c s' es)
    (hi : RefInv s tr) (hlast : c.pc = .releaseServer → s.server.obj.refCount = 1 → s.Settled) :
    RefInv s' (tr ++ es) := by
  have hmem : c ∈ s.conns := List.mem_of_getElem? hc
  cases hm with
  | take c' hpc hpc' =>
      have hold : c.Holds = false := by simp [Conn.Holds, hpc, ConnPc.phase]
      have hold' : c'.Holds = true := by simp [Conn.Holds, hpc', ConnPc.phase]
      have hset := Parties.countP_set_gain hc hold hold'
      refine hi.keep (by simp) ?_ (fun _ h => absurd (by rw [hpc]; rfl) (h.2 c hmem))
      show s.server.obj.refCount = s.holders ∨ s.server.obj.refCount = sxWeakObject →
        (sxRetain s.server.obj).refCount = _ ∨ (sxRetain s.server.obj).refCount = sxWeakObject
      rw [refCount_sxRetain]
      unfold Sys.holders
      dsimp only
      rintro (h | h)
      · split
        · exact .inr ‹_›
        · exact .inl (by omega)
      · rw [if_pos h]
        exact .inr h
  | giveBack c' hpc hpc' server' freed hrel =>
      have hold : c.Holds = true := by simp [Conn.Holds, hpc, ConnPc.phase]
      have hold' : c'.Holds = false := by simp [Conn.Holds, hpc', ConnPc.phase]
      have hset := Parties.countP_set_loss hc hold hold'
      refine hi.release (e := [.conn k .releaseServer]) hrel rfl ?_ ?_ (by simp)
      · unfold Sys.holders
        dsimp only
        omega
      · intro h
        obtain ⟨hdone, hpend⟩ := hlast hpc h
        exact ⟨hdone, Parties.forall_mem_set hpend (by rw [hpc']; simp [ConnPc.phase])⟩
  | leave c' hpc hpc' =>
      have hhold : c'.Holds = c.Holds := by simp [Conn.Holds, hpc, hpc', ConnPc.phase]
      have hsame : Sys.holders { s with count := s.count - 1, conns := s.conns.set k c' } = s.holders := by
        unfold Sys.holders
        rw [Parties.countP_set_eq hc hhold]
      apply hi.keep (by simp) (by rw [hsame]; exact id)
      intro hz h
      refine ⟨by rw [hsame]; exact hz, ⟨h.1, Parties.forall_mem_set h.2 ?_⟩, ?_⟩
      · rw [hpc']
        simp [ConnPc.phase]
      · simp [SysEvent.Accesses, ConnEvent.AccessesServer]
  | stay c' es hphase hgone hexit =>
      have hhold : c'.Holds = c.Holds := by simp [Conn.Holds, hphase]
      have hsame : Sys.holders { s with conns := s.conns.set k c' } = s.holders := by
        unfold Sys.holders
        rw [Parties.countP_set_eq hc hhold]
      apply hi.keep (by simp) (by rw [hsame]; exact id)
      intro hz h
      refine ⟨by rw [hsame]; exact hz, ⟨h.1, Parties.forall_mem_set h.2 (by rw [hphase]; exact h.2 c hmem)⟩, ?_⟩
      -- nobody holds the server and no block is waiting to: this block is past its release
      have hnot : c.pc.phase ≠ .holding := fun hh => by
        have hpos : 0 < s.conns.countP Conn.Holds :=
          List.countP_pos_iff.mpr ⟨c, hmem, by simp [Conn.Holds, hh]⟩
        unfold Sys.holders at hz
        omega
      have hexiting : c.pc.phase = .exiting := by
        have hpend := h.2 c hmem
        cases hp : c.pc.phase <;> simp_all
      intro e he
      obtain ⟨e', he', rfl⟩ := List.mem_map.mp he
      exact hexit hexiting e' he'

/-- **The invariant survives every step that meets the condition.** -/
theorem refInv_step {a : SysAct} (hi : RefInv s tr) (hlast : s.LastRelease tr a)
    (hs : sysStep calls s a = some (s', es)) : RefInv s' (tr ++ es) := by
  cases a with
  | owner =>
      simp only [sysStep] at hs
      split at hs
      · rename_i howner
        split at hs
        · cases hs
        · rename_i server freed hrel
          cases hs
          refine hi.release (e := []) hrel rfl ?_ (fun h => hlast trivial h) (by simp)
          simp [Sys.holders, howner]
          omega
      · cases hs
  | loop i => exact refInv_loop (loopStep_move hs) hi hlast
  | conn k i =>
      obtain ⟨c, hc, hm⟩ := conn_share hs
      refine refInv_conn hc hm hi fun hpc => hlast ?_
      show s.conns[k]?.map (·.pc) = some .releaseServer
      rw [hc, Option.map_some, hpc]
  | setStatus st =>
      simp only [sysStep] at hs
      cases hs
      exact hi.keep (by simp) id fun hz h => ⟨hz, h, by simp⟩
  | queue k a =>
      obtain ⟨c, q, e, hc, rfl, rfl, he⟩ := queue_share hs
      have hhold : Conn.Holds { c with queue := q } = c.Holds := rfl
      have hsame : Sys.holders { s with conns := s.conns.set k { c with queue := q } } = s.holders := by
        unfold Sys.holders
        rw [Parties.countP_set_eq hc hhold]
      apply hi.keep (by simp) (by rw [hsame]; exact id)
      intro hz h
      refine ⟨by rw [hsame]; exact hz, ⟨h.1, Parties.forall_mem_set h.2 ?_⟩, by simpa [SysEvent.Accesses] using he⟩
      exact h.2 c (List.mem_of_getElem? hc)

end Refs

/-- The invariant holds in every run whose steps meet the condition. -/
theorem refInv_run {calls : SocketCalls} {server : Server} {preprocessQueue operatingQueue : Bool} {s₀ s : Sys}
    {acts : List SysAct} {tr : List SysEvent} (hfresh : server.Fresh)
    (hstart : sxServerStart (some server) preprocessQueue operatingQueue = some (sxSuccess, some s₀))
    (hlast : Machine.Guarded (sysStep calls) Sys.LastRelease [] s₀ acts)
    (hrun : Machine.run (sysStep calls) s₀ acts = some (s, tr)) : RefInv s tr := by
  have h0 : RefInv s₀ [] := by
    rw [sxServerStart_spec hstart]
    refine ⟨fun _ => .inl ?_, nofun, Machine.eachEvent_nil _⟩
    show (sxRetain server.obj).refCount = 2
    rw [refCount_sxRetain, hfresh.refCount]
    decide
  have hstep (s₁ : Sys) (tr₁ : List SysEvent) (a : SysAct) (s₂ : Sys) (es : List SysEvent) (hi : RefInv s₁ tr₁)
      (hl : s₁.LastRelease tr₁ a) (hs : sysStep calls s₁ a = some (s₂, es)) : RefInv s₂ (tr₁ ++ es) :=
    refInv_step hi hl hs
  exact Machine.run_invariant_of_guarded hstep h0 hlast hrun

/-! ## The event loop -/

/-- The condition on a step: if it is the release of the last reference, the loop has ended. -/
def Kq.LastRelease (_ : List SysEvent) (s : Kq) (a : KqAct) : Prop :=
  a = .starter ∨ a = .owner → s.server.obj.refCount = 1 → s.pc = .done

instance (tr : List SysEvent) (s : Kq) (a : KqAct) : Decidable (s.LastRelease tr a) :=
  inferInstanceAs (Decidable (_ → _ → _))

/-- The invariant: a deallocated server has no loop any more. -/
structure KqRefInv (s : Kq) (tr : List SysEvent) : Prop where
  ended : .freed ∈ tr → s.pc = .done
  safe  : NoUseAfterFree tr

/-- **The invariant survives every step that meets the condition.** -/
theorem kqRefInv_step {calls : SocketCalls} {s s' : Kq} {tr es : List SysEvent} {a : KqAct}
    (hi : KqRefInv s tr) (hlast : s.LastRelease tr a) (hs : kqStep calls s a = some (s', es)) :
    KqRefInv s' (tr ++ es) := by
  have hother (ha : (∃ st, a = .setStatus st) ∨ (∃ k act, a = .queue k act) ∨ ∃ act, a = .curQueue act) :
      KqRefInv s' (tr ++ es) := by
    obtain ⟨_, _, hpc, _, _, hes⟩ := kqStep_other hs ha
    have hnone : .freed ∉ es := fun hf => (hes _ hf).2 rfl
    refine ⟨?_, hi.safe.append (noUseAfterFree_of_not_mem hnone) fun _ e he => (hes e he).1⟩
    intro h
    rw [hpc]
    exact hi.ended ((List.mem_append.mp h).resolve_right hnone)
  have hrelease {server' : Server} {freed : Bool} (hrel : sxReleaseServer calls s.server = some (server', freed))
      (hend : s.server.obj.refCount = 1 → s.pc = .done) (hpc : s'.pc = s.pc) :
      KqRefInv s' (tr ++ freedIf freed) := by
    have hfreed : .freed ∈ freedIf freed → s.pc = .done := fun h => by
      rcases sxReleaseServer_cases hrel with ⟨hone, _, _⟩ | ⟨_, rfl, _⟩
      · exact hend hone
      · simp [freedIf] at h
    have hsafe : NoUseAfterFree (freedIf freed) := by simpa using @noUseAfterFree_release [] (by simp) freed
    refine ⟨?_, hi.safe.append hsafe fun _ => accesses_freedIf freed⟩
    intro h
    rw [hpc]
    exact (List.mem_append.mp h).elim hi.ended hfreed
  cases a with
  | starter | owner =>
      simp only [kqStep] at hs
      split at hs
      · split at hs
        · cases hs
        · rename_i server freed hrel
          cases hs
          exact hrelease hrel (hlast (by simp)) rfl
      · cases hs
  | loop i =>
      obtain ⟨_, hpc, hes, _⟩ := kqLoopStep_move hs
      have hlive : .freed ∉ tr := fun h => hpc (hi.ended h)
      refine ⟨?_, hi.safe.append (noUseAfterFree_of_not_mem hes) fun h => absurd h hlive⟩
      intro h
      exact absurd ((List.mem_append.mp h).resolve_right hes) hlive
  | setStatus st => exact hother (.inl ⟨st, rfl⟩)
  | queue k act => exact hother (.inr (.inl ⟨k, act, rfl⟩))
  | curQueue act => exact hother (.inr (.inr ⟨act, rfl⟩))

/-- The invariant holds in every run whose steps meet the condition. -/
theorem kqRefInv_run {calls : SocketCalls} {s₀ s : Kq} {acts : List KqAct} {tr : List SysEvent}
    (hlast : Machine.Guarded (kqStep calls) Kq.LastRelease [] s₀ acts)
    (hrun : Machine.run (kqStep calls) s₀ acts = some (s, tr)) : KqRefInv s tr := by
  have hstep (s₁ : Kq) (tr₁ : List SysEvent) (a : KqAct) (s₂ : Kq) (es : List SysEvent) (hi : KqRefInv s₁ tr₁)
      (hl : s₁.LastRelease tr₁ a) (hs : kqStep calls s₁ a = some (s₂, es)) : KqRefInv s₂ (tr₁ ++ es) :=
    kqRefInv_step hi hl hs
  have h0 : KqRefInv s₀ [] := ⟨nofun, Machine.eachEvent_nil _⟩
  exact Machine.run_invariant_of_guarded hstep h0 hlast hrun

/-! ## Results -/

/-- **No use after free, if the last release comes last.** In every run of a started server in which the
    release of the last reference comes when the loop has ended and no dispatched connection is still without
    its reference, neither the loop nor a connection touches the server once it is deallocated. -/
theorem no_use_after_free (calls : SocketCalls) {server : Server} (hfresh : server.Fresh) :
    (∀ preprocessQueue operatingQueue s₀ acts s tr,
      sxServerStart (some server) preprocessQueue operatingQueue = some (sxSuccess, some s₀) →
      Machine.Guarded (sysStep calls) Sys.LastRelease [] s₀ acts →
      Machine.run (sysStep calls) s₀ acts = some (s, tr) → NoUseAfterFree tr) ∧
    ∀ s₀ acts s tr, sxServerStartKqueue server = some (sxSuccess, some s₀) →
      Machine.Guarded (kqStep calls) Kq.LastRelease [] s₀ acts →
      Machine.run (kqStep calls) s₀ acts = some (s, tr) → NoUseAfterFree tr := by
  constructor
  · intro preprocessQueue operatingQueue s₀ acts s tr hstart hlast hrun
    exact (refInv_run hfresh hstart hlast hrun).safe
  · intro s₀ acts s tr _ hlast hrun
    exact (kqRefInv_run hlast hrun).safe

/-- The owner gives its reference back when everybody else has ended. -/
theorem no_use_after_free_orderly :
    (∃ s tr, Machine.run (sysStep {}) { server := { oneGuest with obj := sxRetain oneGuest.obj } }
        ([.loop .tick, .loop .tick, .setStatus .shouldTerminate] ++ List.replicate 4 (.loop .tick) ++ [.owner]) =
        some (s, tr) ∧ .freed ∈ tr ∧ NoUseAfterFree tr) ∧
    ∃ s tr, Machine.run (kqStep {}) { server := { oneGuest with obj := sxRetain oneGuest.obj } }
        ([.starter] ++ List.replicate 3 (.loop .tick) ++ [.loop (.kqueue false), .owner]) = some (s, tr) ∧
        .freed ∈ tr ∧ NoUseAfterFree tr := by
  have hrun : Machine.run (sysStep {}) { server := { oneGuest with obj := sxRetain oneGuest.obj } }
      ([.loop .tick, .loop .tick, .setStatus .shouldTerminate] ++ List.replicate 4 (.loop .tick) ++ [.owner]) =
      some (_, [.access, .access, .access, .access, .access, .access, .freed]) := rfl
  have hrun' : Machine.run (kqStep {}) { server := { oneGuest with obj := sxRetain oneGuest.obj } }
      ([.starter] ++ List.replicate 3 (.loop .tick) ++ [.loop (.kqueue false), .owner]) =
      some (_, [.access, .access, .access, .freed]) := rfl
  refine ⟨⟨_, _, hrun, by simp, ?_⟩, ⟨_, _, hrun', by simp, ?_⟩⟩
  · exact (no_use_after_free {} oneGuest_fresh).1 true true _ _ _ _ rfl (by decide) hrun
  · exact (no_use_after_free {} oneGuest_fresh).2 _ _ _ _ rfl (by decide) hrun'

/-- **Use after free.** The owner of a server started by `SXServerStart` gives its reference back while the loop
    is on its way out: the loop's own release deallocates the server, and then the loop reads `didKill` from
    it. The owner of a server started by `SXServerStart_kqueue` has the only reference once the start function
    has returned: its release deallocates the server under the loop. -/
theorem use_after_free :
    ∃ server : Server, server.Fresh ∧
      (∃ s₀ acts s tr, sxServerStart (some server) true true = some (sxSuccess, some s₀) ∧
        Machine.run (sysStep {}) s₀ acts = some (s, tr) ∧ ¬ NoUseAfterFree tr) ∧
      ∃ s₀ acts s tr, sxServerStartKqueue server = some (sxSuccess, some s₀) ∧
        Machine.run (kqStep {}) s₀ acts = some (s, tr) ∧ ¬ NoUseAfterFree tr := by
  refine ⟨oneGuest, oneGuest_fresh, ?_, ?_⟩
  · have hrun : Machine.run (sysStep {}) { server := { oneGuest with obj := sxRetain oneGuest.obj } }
        ([.loop .tick, .loop .tick, .setStatus .shouldTerminate, .owner] ++ List.replicate 4 (.loop .tick)) =
        some (_, [.access, .access, .access, .access, .access, .freed, .access]) := rfl
    refine ⟨_, _, _, _, rfl, hrun, ?_⟩
    intro h
    have hlast := h [.access, .access, .access, .access, .access, .freed] .access [] rfl (by simp)
    cases hlast
  · have hrun : Machine.run (kqStep {}) { server := { oneGuest with obj := sxRetain oneGuest.obj } }
        [.starter, .owner, .loop .tick] = some (_, [.freed, .access]) := rfl
    refine ⟨_, _, _, _, rfl, hrun, ?_⟩
    intro h
    have hlast := h [.freed] .access [] rfl (by simp)
    cases hlast

end SpartanX
