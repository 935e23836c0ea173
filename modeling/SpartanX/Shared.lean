import SpartanX.Connection.Block

/-!
# `Shared` — a started server, as its loop and its connections share it

The loop of a started server and its connections run concurrently with the owner of the server. What they
share is the server structure itself: its reference count, which decides when `SXRelease` deallocates it, and
the fields the blocks read. The events of such a system (`SysEvent`) say who touches the server and when it is
deallocated.
-/

namespace SpartanX

open CInt

/-- `SXRelease(server)`: the server after it, and whether it ran `SXFreeServer`. `calls` are the outcomes of
    the system calls there. -/
def sxReleaseServer (calls : SocketCalls) (server : Server) : Option (Server × Bool) :=
  let r := sxRelease server.obj
  let server := { server with obj := r.1 }
  if r.2 then (sxFreeServer calls server).map fun server => (server, true) else some (server, false)

/-- What can be observed of a started server. -/
inductive SysEvent
  | access                            -- the loop reads or writes a field of the server
  | conn (k : Nat) (e : ConnEvent)    -- an event of connection block `k`
  | handling (e : ConnEvent)          -- an event of the handling of a connection in the event loop
  | dispatched
  | errHandler (err : SXError)        -- `accept` failed
  | refused                           -- `shouldConnect` said no
  | freed                             -- `SXFreeServer` has run
  deriving DecidableEq, Repr

/-- The events of a release. -/
def freedIf (freed : Bool) : List SysEvent := if freed then [.freed] else []

/-- Whether the loop or a connection reads or writes a field of the server in the event. -/
def SysEvent.Accesses : SysEvent → Bool
  | .access     => true
  | .conn _ e   => e.AccessesServer
  | .handling e => e.AccessesServer
  | _           => false

/-- Whether a guest slot is lost with the event. -/
def SysEvent.Leaks : SysEvent → Bool
  | .errHandler _ | .refused => true
  | _ => false

/-- Neither the loop nor a connection touches the server once it is deallocated. -/
def NoUseAfterFree : List SysEvent → Prop :=
  Machine.EachEvent fun pre e => .freed ∈ pre → e.Accesses = false

/-- A server as `SXCreateServer` makes it, with the handlers its owner has set since. -/
structure Server.Fresh (server : Server) : Prop where
  created : ∃ calls setup msgHandl c, sxCreateServer calls setup msgHandl = some c ∧
    c.err = sxSuccess ∧ c.freed = false ∧
    server = { c.server with
      handlers      := server.handlers
      didStart      := server.didStart
      shouldConnect := server.shouldConnect
      didKill       := server.didKill }

/-- A fresh server has the one reference of its owner. -/
theorem Server.Fresh.refCount {server : Server} (h : server.Fresh) : server.obj.refCount = 1 := by
  obtain ⟨_, _, _, c, hc, _, _, heq⟩ := h.created
  rw [heq]
  show c.server.obj.refCount = 1
  rw [(sxCreateServer_counts hc).1]

/-- A server for one guest, as it is created, with the handlers set that are called without a test. -/
def oneGuest : Server :=
  { ((sxCreateServer {} { maxGuest := 1 } true).map (·.server)).getD {} with
    handlers := { dataHandler := true, errHandler := true } }

theorem oneGuest_fresh : oneGuest.Fresh :=
  ⟨⟨{}, { maxGuest := 1 }, true, _, rfl, rfl, rfl, rfl⟩⟩

/-! ## Releasing the server -/

/-- `SXRetain` on a header that is not at the sentinel adds one; at the sentinel it does nothing. -/
theorem refCount_sxRetain (obj : ObjHeader) :
    (sxRetain obj).refCount = if obj.refCount = sxWeakObject then obj.refCount else obj.refCount + 1 := rfl

/-- **What a release does**: nothing at the sentinel; otherwise it takes one from the count, and it deallocates
    the server iff that was the last one. -/
theorem sxReleaseServer_cases {calls : SocketCalls} {server server' : Server} {freed : Bool}
    (h : sxReleaseServer calls server = some (server', freed)) :
    (server.obj.refCount = 1 ∧ freed = true ∧ server' = {}) ∨
    (server.obj.refCount ≠ 1 ∧ freed = false ∧ ∃ obj, server' = { server with obj := obj } ∧
      obj.refCount =
        if server.obj.refCount = sxWeakObject then server.obj.refCount else server.obj.refCount - 1) := by
  unfold sxReleaseServer at h
  have hflag : (sxRelease server.obj).2 = true ↔ server.obj.refCount = 1 := by
    unfold sxRelease Counter.stickyRelease
    by_cases hw : server.obj.refCount = sxWeakObject
    · rw [if_pos hw, hw]
      simp [sxWeakObject]
    · rw [if_neg hw]
      simp only [decide_eq_true_eq]
      omega
  by_cases h1 : server.obj.refCount = 1
  · left
    simp only [hflag.mpr h1, if_true, Option.map_eq_some_iff] at h
    obtain ⟨freedServer, hfree, heq⟩ := h
    obtain ⟨rfl, rfl⟩ := Prod.mk.inj heq
    refine ⟨h1, rfl, ?_⟩
    unfold sxFreeServer at hfree
    dsimp only at hfree
    split at hfree
    · cases hfree
    · split at hfree
      · cases hfree
      · exact (Option.some.inj hfree).symm
  · right
    have hfalse : (sxRelease server.obj).2 = false := by
      rw [← Bool.not_eq_true]
      exact mt hflag.mp h1
    simp only [hfalse, Bool.false_eq_true, if_false, Option.some.injEq, Prod.mk.injEq] at h
    obtain ⟨rfl, rfl⟩ := h
    refine ⟨h1, rfl, _, rfl, ?_⟩
    show (Counter.stickyRelease sxWeakObject server.obj.refCount).1 = _
    unfold Counter.stickyRelease
    split <;> rfl

/-! ## Traces -/

/-- A trace without a deallocation. -/
theorem noUseAfterFree_of_not_mem {es : List SysEvent} (h : .freed ∉ es) : NoUseAfterFree es := by
  intro pre e post heq hfreed
  exact absurd (by rw [heq]; exact List.mem_append_left _ hfreed) h

/-- Two traces in sequence, the second without an access if the first has a deallocation. -/
theorem NoUseAfterFree.append {tr es : List SysEvent} (h : NoUseAfterFree tr) (hes : NoUseAfterFree es)
    (hcross : .freed ∈ tr → ∀ e ∈ es, e.Accesses = false) : NoUseAfterFree (tr ++ es) := by
  apply Machine.EachEvent.append h
  intro pre e post heq hfreed
  rcases List.mem_append.mp hfreed with hfreed | hfreed
  · exact hcross hfreed e (by rw [heq]; simp)
  · exact hes pre e post heq hfreed

/-- A deallocation accesses nothing by itself. -/
theorem accesses_freedIf (freed : Bool) : ∀ e ∈ freedIf freed, e.Accesses = false := by
  cases freed <;> simp [freedIf, SysEvent.Accesses]

/-- The events of a release, whatever came before them in the step. -/
theorem noUseAfterFree_release {es : List SysEvent} (h : .freed ∉ es) (freed : Bool) :
    NoUseAfterFree (es ++ freedIf freed) := by
  refine (noUseAfterFree_of_not_mem h).append ?_ fun hfreed => absurd hfreed h
  exact Machine.eachEvent_of_forall fun e he _ _ => accesses_freedIf freed e he

end SpartanX
