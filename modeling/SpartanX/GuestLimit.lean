import SpartanX.AcceptLoop
import SpartanX.Kqueue.Loop

/-!
# `GuestLimit` — the number of connections and `max_guest`

The accept loop raises `count` before it accepts, and lowers it nowhere; a connection block lowers it at its
end. So `count` is the number of live connections, plus the one being accepted, plus one for every accept that
failed or was refused (`SlotInv`): it never lets too many connections in, and every failed or refused accept
costs a slot for good. The event loop raises its own `count` with the registration, and there the two agree
(`KqSlotInv`).

## Contents
- **The accept loop.** `Sys.taken`, `SlotInv`, `slotInv_loop`, `slotInv_conn`, `slotInv_step`.
- **The event loop.** `KqSlotInv`, `kqSlotInv_move`, `kqSlotInv_step`.
- **Results.** `guest_limit`, `slots_kept_iff`.
-/

namespace SpartanX

open CInt

/-! ## The accept loop -/

/-- A connection block that is dispatched and not past its `--count`. -/
def Conn.Live (c : Conn) : Bool := c.pc ≠ .done

/-- The connection blocks that are dispatched and not past their `--count`. -/
def Sys.live (s : Sys) : Nat := s.conns.countP Conn.Live

/-- The slots lost in a trace. -/
def leaks (tr : List SysEvent) : Nat := tr.countP SysEvent.Leaks

/-- The slots taken: by live connections, by the one being accepted, and for good. -/
def Sys.taken (s : Sys) (tr : List SysEvent) : Nat := s.live + (if s.pc.HasSlot then 1 else 0) + leaks tr

/-- The invariant: `count` counts the slots taken, of which there are at most `m`, and one is free where the
    loop is about to take it. A deallocated server has no slots. -/
structure SlotInv (m : SizeT) (s : Sys) (tr : List SysEvent) : Prop where
  count  : s.count = BitVec.ofNat 32 (s.taken tr)
  bound  : s.taken tr ≤ m.toNat ∧ s.taken tr < 4294967296
  guests : s.server.maxGuest = m ∨ s.server.maxGuest = 0
  enter  : s.pc = .incCount → s.taken tr + 1 ≤ m.toNat ∧ s.taken tr + 1 < 4294967296

theorem leaks_append (tr es : List SysEvent) : leaks (tr ++ es) = leaks tr + leaks es :=
  List.countP_append

@[simp] theorem leaks_conn (k : Nat) (es : List ConnEvent) : leaks (es.map (.conn k)) = 0 := by
  unfold leaks
  rw [List.countP_map]
  exact List.countP_eq_zero.mpr fun e _ => by simp [SysEvent.Leaks]

@[simp] theorem leaks_freedIf (freed : Bool) : leaks (freedIf freed) = 0 := by
  cases freed <;> rfl

/-- A block is live as long as it is not gone. -/
theorem live_eq_phase (c : Conn) : c.Live = decide (c.pc.phase ≠ .gone) := by
  unfold Conn.Live
  cases c.pc <;> rfl

theorem live_of_phase {c c' : Conn} (h : c'.pc.phase = c.pc.phase) : c'.Live = c.Live := by
  rw [live_eq_phase, live_eq_phase, h]

/-- A release leaves a server its `max_guest`, or a deallocated one none. -/
theorem maxGuest_release {calls : SocketCalls} {server server' : Server} {freed : Bool} {m : SizeT}
    (h : sxReleaseServer calls server = some (server', freed))
    (hm : server.maxGuest = m ∨ server.maxGuest = 0) : server'.maxGuest = m ∨ server'.maxGuest = 0 := by
  rcases sxReleaseServer_cases h with ⟨_, _, rfl⟩ | ⟨_, _, _, rfl, _⟩
  · exact .inr rfl
  · exact hm

section Slots

variable {calls : SocketCalls} {m : SizeT} {s s' : Sys} {tr es : List SysEvent}

/-- A step that takes no slot and gives none back keeps the invariant. -/
theorem SlotInv.keep (hi : SlotInv m s tr) (hcount : s'.count = s.count)
    (htaken : s'.taken (tr ++ es) = s.taken tr)
    (hguests : s'.server.maxGuest = m ∨ s'.server.maxGuest = 0) (henter : s'.pc = .incCount → s.pc = .incCount) :
    SlotInv m s' (tr ++ es) := by
  refine ⟨?_, ?_, hguests, ?_⟩
  · rw [hcount, htaken]
    exact hi.count
  · rw [htaken]
    exact hi.bound
  · intro h
    rw [htaken]
    exact hi.enter (henter h)

/-- A step that takes the slot found free. -/
theorem SlotInv.inc (hi : SlotInv m s tr) (hpc : s.pc = .incCount) (hcount : s'.count = s.count + 1)
    (htaken : s'.taken (tr ++ es) = s.taken tr + 1)
    (hguests : s'.server.maxGuest = m ∨ s'.server.maxGuest = 0) (henter : s'.pc ≠ .incCount) :
    SlotInv m s' (tr ++ es) := by
  refine ⟨?_, ?_, hguests, fun h => absurd h henter⟩
  · rw [hcount, htaken, hi.count, ofNat_add_one]
  · rw [htaken]
    exact hi.enter hpc

/-- A step that gives a slot back. -/
theorem SlotInv.dec (hi : SlotInv m s tr) (hcount : s'.count = s.count - 1)
    (htaken : s'.taken (tr ++ es) + 1 = s.taken tr)
    (hguests : s'.server.maxGuest = m ∨ s'.server.maxGuest = 0) (henter : s'.pc = .incCount → s.pc = .incCount) :
    SlotInv m s' (tr ++ es) := by
  have hb := hi.bound
  refine ⟨?_, by omega, hguests, ?_⟩
  · rw [hcount, hi.count, ← htaken, ofNat_succ_sub_one]
  · intro h
    have he := hi.enter (henter h)
    omega

/-- The invariant survives every move of the loop. -/
theorem slotInv_loop (hm : LoopMove calls s s' es) (hi : SlotInv m s tr) : SlotInv m s' (tr ++ es) := by
  cases hm with
  | touch pc' st es hholds hslot hinc hes =>
      refine hi.keep rfl ?_ hi.guests (fun h => absurd h hinc)
      have hleak : leaks es = 0 := by rcases hes with rfl | rfl <;> rfl
      show s.live + (if pc'.HasSlot then 1 else 0) + leaks (tr ++ es) = _
      rw [hslot, leaks_append, hleak]
      rfl
  | enter hpc hlt =>
      have htaken : Sys.taken { s with pc := .incCount } (tr ++ [SysEvent.access]) = s.taken tr := by
        simp [Sys.taken, Sys.live, LoopPc.HasSlot, hpc, leaks, SysEvent.Leaks]
      have hfree : IntT.toSizeT s.count < m := by
        rcases hi.guests with h | h
        · rwa [← h]
        · rw [h] at hlt
          exact absurd hlt BitVec.not_lt_zero
      rw [hi.count] at hfree
      refine ⟨?_, ?_, hi.guests, ?_⟩
      · rw [htaken]
        exact hi.count
      · rw [htaken]
        exact hi.bound
      · intro _
        rw [htaken]
        exact succ_le_of_toSizeT_lt hi.bound.2 hfree
  | inc hpc =>
      refine hi.inc hpc rfl ?_ hi.guests (by simp)
      simp [Sys.taken, Sys.live, LoopPc.HasSlot, hpc]
      omega
  | accepted hpc fd =>
      refine hi.keep rfl ?_ hi.guests (fun h => by cases h)
      simp [Sys.taken, Sys.live, LoopPc.HasSlot, hpc]
  | failed hpc | refused hpc =>
      -- the slot of the accept becomes a lost one
      refine hi.keep rfl ?_ hi.guests (fun h => by cases h)
      simp [Sys.taken, Sys.live, LoopPc.HasSlot, hpc, leaks, SysEvent.Leaks]
      omega
  | dispatch hpc =>
      refine hi.keep rfl ?_ hi.guests (fun h => by cases h)
      have hlive : Conn.Live (Conn.start s.sock) = true := rfl
      simp [Sys.taken, Sys.live, LoopPc.HasSlot, hpc, leaks, SysEvent.Leaks, hlive]
  | release hpc server' freed hrel =>
      refine hi.keep rfl ?_ (maxGuest_release hrel hi.guests) (fun h => by cases h)
      have hleak : leaks (.access :: freedIf freed) = 0 := by cases freed <;> rfl
      simp [Sys.taken, Sys.live, LoopPc.HasSlot, hpc, leaks_append, hleak]
  | didKill hpc =>
      refine hi.keep rfl ?_ hi.guests (fun h => by cases h)
      simp [Sys.taken, Sys.live, LoopPc.HasSlot, hpc, leaks, SysEvent.Leaks]

/-- A connection that stays live keeps the slots taken. -/
theorem taken_set {k : Nat} {c c' : Conn} (hc : s.conns[k]? = some c) (hlive : c'.Live = c.Live)
    (hs : s'.conns = s.conns.set k c' ∧ s'.pc = s.pc) (hes : leaks es = 0) :
    s'.taken (tr ++ es) = s.taken tr := by
  unfold Sys.taken Sys.live
  rw [hs.1, hs.2, Parties.countP_set_eq hc hlive, leaks_append, hes, Nat.add_zero]

/-- The invariant survives every step of a connection. -/
theorem slotInv_conn {k : Nat} {c : Conn} (hc : s.conns[k]? = some c) (hm : ConnShare calls s k c s' es)
    (hi : SlotInv m s tr) : SlotInv m s' (tr ++ es) := by
  cases hm with
  | take c' hpc hpc' =>
      have hlive : c'.Live = c.Live := by simp [Conn.Live, hpc, hpc']
      exact hi.keep rfl (taken_set hc hlive ⟨rfl, rfl⟩ rfl) hi.guests id
  | giveBack c' hpc hpc' server' freed hrel =>
      have hlive : c'.Live = c.Live := by simp [Conn.Live, hpc, hpc']
      have hleak : leaks (.conn k .releaseServer :: freedIf freed) = 0 := by cases freed <;> rfl
      exact hi.keep rfl (taken_set hc hlive ⟨rfl, rfl⟩ hleak) (maxGuest_release hrel hi.guests) id
  | leave c' hpc hpc' =>
      refine hi.dec rfl ?_ hi.guests id
      have hold : c.Live = true := by simp [Conn.Live, hpc]
      have hold' : c'.Live = false := by simp [Conn.Live, hpc']
      have hset := Parties.countP_set_loss hc hold hold'
      have hleak : leaks (tr ++ [SysEvent.conn k .decCount]) = leaks tr := by rw [leaks_append]; rfl
      unfold Sys.taken Sys.live
      rw [hleak]
      dsimp only
      omega
  | stay c' es hphase hgone hexit =>
      exact hi.keep rfl (taken_set hc (live_of_phase hphase) ⟨rfl, rfl⟩ (leaks_conn k es)) hi.guests id

/-- **The invariant survives every step of the system.** -/
theorem slotInv_step {a : SysAct} (hi : SlotInv m s tr) (hs : sysStep calls s a = some (s', es)) :
    SlotInv m s' (tr ++ es) := by
  cases a with
  | owner =>
      simp only [sysStep] at hs
      split at hs
      · split at hs
        · cases hs
        · rename_i server freed hrel
          cases hs
          refine hi.keep rfl ?_ (maxGuest_release hrel hi.guests) id
          simp [Sys.taken, Sys.live, leaks_append]
      · cases hs
  | loop i => exact slotInv_loop (loopStep_move hs) hi
  | conn k i =>
      obtain ⟨c, hc, hm⟩ := conn_share hs
      exact slotInv_conn hc hm hi
  | setStatus st =>
      simp only [sysStep] at hs
      cases hs
      exact hi.keep rfl (by simp [Sys.taken, Sys.live]) hi.guests id
  | queue k a =>
      obtain ⟨c, q, e, hc, rfl, rfl, _⟩ := queue_share hs
      have hlive : Conn.Live { c with queue := q } = c.Live := rfl
      exact hi.keep rfl (taken_set hc hlive ⟨rfl, rfl⟩ rfl) hi.guests id

end Slots

/-- The invariant holds in every run of a started server. -/
theorem slotInv_run {calls : SocketCalls} {server : Server} {preprocessQueue operatingQueue : Bool} {s₀ s : Sys}
    {acts : List SysAct} {tr : List SysEvent}
    (hstart : sxServerStart (some server) preprocessQueue operatingQueue = some (sxSuccess, some s₀))
    (hrun : Machine.run (sysStep calls) s₀ acts = some (s, tr)) : SlotInv server.maxGuest s tr := by
  have h0 : SlotInv server.maxGuest s₀ [] := by
    rw [sxServerStart_spec hstart]
    exact ⟨rfl, ⟨Nat.zero_le _, show 0 < 4294967296 by decide⟩, .inl rfl, nofun⟩
  simpa using Machine.run_invariant (I := SlotInv server.maxGuest)
    (fun _ _ _ _ _ hi hs => slotInv_step hi hs) h0 hrun

/-! ## The event loop -/

/-- The invariant: `count` is the number of registered connections, of which there are at most `m`, and there
    is room for one more from the test to the registration. -/
structure KqSlotInv (m : SizeT) (s : Kq) : Prop where
  count  : s.count.toNat = s.registered
  bound  : s.registered ≤ m.toNat
  guests : s.server.maxGuest = m ∨ s.server.maxGuest = 0
  room   : s.pc.Entered = true → s.registered < m.toNat

section KqSlots

variable {calls : SocketCalls} {m : SizeT} {s s' : Kq}

/-- A step that registers nothing and removes nothing keeps the invariant. -/
theorem KqSlotInv.keep (hi : KqSlotInv m s) (hcount : s'.count = s.count)
    (hreg : s'.registered = s.registered) (hguests : s'.server.maxGuest = m ∨ s'.server.maxGuest = 0)
    (hroom : s'.pc.Entered = true → s.pc.Entered = true) : KqSlotInv m s' := by
  refine ⟨?_, ?_, hguests, ?_⟩
  · rw [hcount, hreg]
    exact hi.count
  · rw [hreg]
    exact hi.bound
  · intro h
    rw [hreg]
    exact hi.room (hroom h)

/-- The invariant survives every move of the loop. -/
theorem kqSlotInv_move (hm : KqMove s s') (hi : KqSlotInv m s) : KqSlotInv m s' := by
  have hcount := hi.count
  have hbound := hi.bound
  cases hm with
  | touch _ hserver hcount' hconns hpc hpc' hentered =>
      refine hi.keep hcount' ?_ (by rw [hserver]; exact hi.guests) hentered
      unfold Kq.registered
      rw [hconns, if_neg hpc, if_neg hpc']
  | enter hpc hlt =>
      have hreg : Kq.registered { s with pc := .callAccept } = s.registered := by simp [Kq.registered, hpc]
      have hroom : s.registered < m.toNat := by
        rcases hi.guests with h | h
        · rw [← hcount, ← h]
          exact hlt
        · rw [h] at hlt
          exact absurd hlt BitVec.not_lt_zero
      exact ⟨by rw [hreg]; exact hcount, by rw [hreg]; exact hbound, hi.guests, fun _ => by rw [hreg]; exact hroom⟩
  | add hpc r =>
      have hroom := hi.room (by rw [hpc]; rfl)
      have hm := m.isLt
      have hreg : Kq.registered { s with pc := .next, conns := s.conns ++ [r], count := s.count + 1 } =
          s.registered + 1 := by simp [Kq.registered, hpc]
      have hadd : (s.count + 1).toNat = s.count.toNat + 1 := by
        rw [BitVec.toNat_add_of_lt]
        · rfl
        · show s.count.toNat + 1 < _
          omega
      refine ⟨?_, by rw [hreg]; omega, hi.guests, nofun⟩
      rw [hreg, ← hcount]
      exact hadd
  | begin hpc r hr batch h =>
      refine hi.keep rfl ?_ hi.guests nofun
      have hlen := List.length_erase_of_mem hr
      have hpos := List.length_pos_of_mem hr
      simp only [Kq.registered, hpc, if_true, reduceCtorEq, if_false, hlen]
      omega
  | handle hpc h => exact hi.keep rfl rfl hi.guests id
  | keep hpc h r =>
      refine hi.keep rfl ?_ hi.guests nofun
      simp [Kq.registered, hpc]
  | close hpc h =>
      have hreg : s.registered = s.conns.length + 1 := by simp [Kq.registered, hpc]
      have hreg' : Kq.registered { s with pc := .next, cur := h, count := s.count - 1 } = s.conns.length := by
        simp [Kq.registered]
      have hsub : (s.count - 1).toNat = s.count.toNat - 1 := by
        rw [BitVec.toNat_sub_of_le]
        · rfl
        · show 1 ≤ s.count.toNat
          omega
      refine ⟨?_, by rw [hreg']; omega, hi.guests, nofun⟩
      rw [hreg']
      show (s.count - 1).toNat = _
      omega

/-- **The invariant survives every step of the system.** -/
theorem kqSlotInv_step {a : KqAct} {es : List SysEvent} (hi : KqSlotInv m s)
    (hs : kqStep calls s a = some (s', es)) : KqSlotInv m s' := by
  have hother (ha : (∃ st, a = .setStatus st) ∨ (∃ k act, a = .queue k act) ∨ ∃ act, a = .curQueue act) :
      KqSlotInv m s' := by
    obtain ⟨hguests, _, hpc, hcount, hconns, _⟩ := kqStep_other hs ha
    refine hi.keep hcount ?_ (by rw [hguests]; exact hi.guests) (by rw [hpc]; exact id)
    unfold Kq.registered
    rw [hconns, hpc]
  cases a with
  | starter | owner =>
      simp only [kqStep] at hs
      split at hs
      · split at hs
        · cases hs
        · rename_i server freed hrel
          cases hs
          exact hi.keep rfl rfl (maxGuest_release hrel hi.guests) id
      · cases hs
  | loop i => exact kqSlotInv_move (kqLoopStep_move hs).1 hi
  | setStatus st => exact hother (.inl ⟨st, rfl⟩)
  | queue k act => exact hother (.inr (.inl ⟨k, act, rfl⟩))
  | curQueue act => exact hother (.inr (.inr ⟨act, rfl⟩))

end KqSlots

/-- The invariant holds in every run of a started server. -/
theorem kqSlotInv_run {calls : SocketCalls} {server : Server} {s₀ s : Kq} {acts : List KqAct}
    {tr : List SysEvent} (hstart : sxServerStartKqueue server = some (sxSuccess, some s₀))
    (hrun : Machine.run (kqStep calls) s₀ acts = some (s, tr)) : KqSlotInv server.maxGuest s := by
  have h0 : KqSlotInv server.maxGuest s₀ := by
    rw [sxServerStartKqueue_spec hstart]
    exact ⟨rfl, Nat.zero_le _, .inl rfl, nofun⟩
  exact Machine.run_state_invariant (fun _ _ _ _ hi hs => kqSlotInv_step hi hs) h0 hrun

/-! ## Results -/

/-- **The guest limit.** However the steps are ordered, the accept loop never has more than `max_guest` live
    connections, and the count of the event loop is the number of its registered connections, of which there
    are never more either. -/
theorem guest_limit (calls : SocketCalls) (server : Server) :
    (∀ preprocessQueue operatingQueue s₀ acts s tr,
      sxServerStart (some server) preprocessQueue operatingQueue = some (sxSuccess, some s₀) →
      Machine.run (sysStep calls) s₀ acts = some (s, tr) → s.live ≤ server.maxGuest.toNat) ∧
    ∀ s₀ acts s tr, sxServerStartKqueue server = some (sxSuccess, some s₀) →
      Machine.run (kqStep calls) s₀ acts = some (s, tr) →
      s.count.toNat = s.registered ∧ s.registered ≤ server.maxGuest.toNat := by
  constructor
  · intro preprocessQueue operatingQueue s₀ acts s tr hstart hrun
    have hi := slotInv_run hstart hrun
    have hlive : s.live ≤ s.taken tr := by
      unfold Sys.taken
      omega
    exact Nat.le_trans hlive hi.bound.1
  · intro s₀ acts s tr hstart hrun
    have hi := kqSlotInv_run hstart hrun
    exact ⟨hi.count, hi.bound⟩

/-- The accept loop up to its first `accept`. -/
def firstAccept : List SysAct := List.replicate 9 (.loop .tick)

/-- The event loop up to the registration of its first connection. -/
def firstRegistration : List KqAct :=
  List.replicate 3 (KqAct.loop .tick) ++ [KqAct.loop (.kqueue true)] ++ List.replicate 4 (KqAct.loop .tick) ++
    [KqAct.loop (.kevent (some [3])), .loop (.next 0 false), .loop .tick, .loop .tick, .loop (.accept (some 5)),
     .loop .tick]

/-- With one guest in, each loop is at its limit. -/
theorem guest_limit_oneGuest :
    (∃ s tr, Machine.run (sysStep {}) { server := { oneGuest with obj := sxRetain oneGuest.obj } }
        (firstAccept ++ [.loop (.accept (some 4)), .loop .tick, .loop .tick]) = some (s, tr) ∧
      s.live = 1 ∧ s.live ≤ oneGuest.maxGuest.toNat) ∧
    ∃ s tr, Machine.run (kqStep {}) { server := { oneGuest with obj := sxRetain oneGuest.obj } }
        firstRegistration = some (s, tr) ∧
      s.registered = 1 ∧ s.count.toNat = s.registered ∧ s.registered ≤ oneGuest.maxGuest.toNat := by
  have hrun : Machine.run (sysStep {}) { server := { oneGuest with obj := sxRetain oneGuest.obj } }
      (firstAccept ++ [.loop (.accept (some 4)), .loop .tick, .loop .tick]) = some (_, _) := rfl
  have hrun' : Machine.run (kqStep {}) { server := { oneGuest with obj := sxRetain oneGuest.obj } }
      firstRegistration = some (_, _) := rfl
  exact ⟨⟨_, _, hrun, rfl, (guest_limit {} oneGuest).1 true true _ _ _ _ rfl hrun⟩,
    ⟨_, _, hrun', rfl, (guest_limit {} oneGuest).2 _ _ _ _ rfl hrun'⟩⟩

/-- **Slots are kept as long as no accept fails or is refused.** Whenever the accept loop is at its head, its
    count is the number of live connections iff no `accept` has failed and `shouldConnect` has refused nobody
    so far. -/
theorem slots_kept_iff {calls : SocketCalls} {server : Server} {preprocessQueue operatingQueue : Bool}
    {s₀ s : Sys} {acts : List SysAct} {tr : List SysEvent}
    (hstart : sxServerStart (some server) preprocessQueue operatingQueue = some (sxSuccess, some s₀))
    (hrun : Machine.run (sysStep calls) s₀ acts = some (s, tr)) (hpc : s.pc = .head) :
    s.count = BitVec.ofNat 32 s.live ↔ ∀ e ∈ tr, e.Leaks = false := by
  have hi := slotInv_run hstart hrun
  have hb := hi.bound.2
  have htaken : s.taken tr = s.live + leaks tr := by
    unfold Sys.taken
    rw [hpc]
    rfl
  have hnone : leaks tr = 0 ↔ ∀ e ∈ tr, e.Leaks = false := by
    unfold leaks
    rw [List.countP_eq_zero]
    exact forall₂_congr fun e _ => Bool.not_eq_true _ |>.to_iff
  rw [htaken] at hb
  rw [← hnone, hi.count, htaken, ofNat_inj_of_lt hb (by omega)]
  omega

/-- After one accepted connection the loop is back at its head, with no slot lost. -/
theorem slots_kept_iff_oneGuest :
    ∃ s tr, Machine.run (sysStep {}) { server := { oneGuest with obj := sxRetain oneGuest.obj } }
        (firstAccept ++ [.loop (.accept (some 4)), .loop .tick, .loop .tick]) = some (s, tr) ∧
      (s.count = BitVec.ofNat 32 s.live ↔ ∀ e ∈ tr, e.Leaks = false) := by
  have hstart : sxServerStart (some oneGuest) true true =
      some (sxSuccess, some { server := { oneGuest with obj := sxRetain oneGuest.obj } }) := rfl
  have hrun : Machine.run (sysStep {}) { server := { oneGuest with obj := sxRetain oneGuest.obj } }
      (firstAccept ++ [.loop (.accept (some 4)), .loop .tick, .loop .tick]) = some (_, _) := rfl
  exact ⟨_, _, hrun, slots_kept_iff hstart hrun rfl⟩

/-- **A failed accept costs its slot.** A server for one guest whose first `accept` fails is back at the head of
    its loop without a connection, and with its only slot taken. -/
theorem failed_accept_keeps_slot :
    ∃ (server : Server) (s₀ s : Sys) (acts : List SysAct) (tr : List SysEvent),
      sxServerStart (some server) true true = some (sxSuccess, some s₀) ∧
      Machine.run (sysStep {}) s₀ acts = some (s, tr) ∧ s.pc = .head ∧ s.live = 0 ∧
      s.count ≠ BitVec.ofNat 32 s.live ∧ server.maxGuest ≤ IntT.toSizeT s.count := by
  refine ⟨oneGuest, _, _, firstAccept ++ [.loop (.accept none), .loop .tick], _, rfl, rfl, rfl, rfl, ?_, ?_⟩
  · decide
  · decide

end SpartanX
