import Mathlib.Data.List.Induction
import SpartanX.Client.Loop

/-!
# `Client.Delivery` — what the data handler of a client is given

The running branch receives into `s` and hands `s` over. The suspend branch receives into `len`, and when the
status has changed during the `recv` it hands the message over with `s`, which holds what the data handler
answered to the message before, or `0`. The buffer is the right one in both. So every call is given the number
of received bytes iff each message that gets through a suspension is as long as the last answer says
(`client_delivers_iff`).

## Contents
- **The message a call belongs to.** `Awaits`, `ClientEvent.HandsOver`, and `handover`, which reads the trace
  step by step (`handover_message_iff`).
- **Step and run.** `DeliveryInv`, `deliveryInv_move`, `deliveryInv_run`.
- **Results.** `client_delivers_iff`, `client_delivers_stale`.
-/

namespace SpartanX

open CInt

/-! ## The message a call belongs to -/

/-- A return of `recv` or a call of the data handler. -/
def ClientEvent.Exchanges : ClientEvent → Bool
  | .recv .. | .dataHandler .. => true
  | _ => false

/-- The last `recv` of the trace returned these bytes, in the branch of this status, and the data handler has
    not been called since. -/
def Awaits (tr : List ClientEvent) (st : Status) (bs : List Byte) : Prop :=
  ∃ before after, tr = before ++ .recv st (some bs) :: after ∧ ∀ e ∈ after, e.Exchanges = false

/-- A call of the data handler hands over the message that awaits it: the length is the number of the bytes that
    the last `recv` returned, the buffer starts with them, and there was no call for them before. -/
def ClientEvent.HandsOver (pre : List ClientEvent) : ClientEvent → Prop
  | .dataHandler buf len _ => ∃ st bs, Awaits pre st bs ∧ len.toNat = bs.length ∧ bs <+: buf
  | _                      => True

/-- What the trace so far says of the next call of the data handler: the message it is for, and the last
    answer. -/
structure Handover where
  message : Option (Status × List Byte) := none
  answer  : SizeT                       := 0
  deriving DecidableEq, Repr

/-- After one more event. -/
def Handover.note (x : Handover) : ClientEvent → Handover
  | .recv st r           => { x with message := r.map (st, ·) }
  | .dataHandler _ _ ret => { message := none, answer := ret }
  | _                    => x

/-- The handover at the end of a trace. -/
def handover (tr : List ClientEvent) : Handover := tr.foldl Handover.note {}

/-- A message of the suspend branch is as long as the last answer of the data handler says, which is `0` before
    its first call. -/
def ClientEvent.AnswerIsLength (pre : List ClientEvent) : ClientEvent → Prop
  | .dataHandler .. => ∀ bs, Awaits pre .suspend bs → (handover pre).answer.toNat = bs.length
  | _               => True

theorem handover_append (tr es : List ClientEvent) :
    handover (tr ++ es) = es.foldl Handover.note (handover tr) := List.foldl_append

/-- An event that is neither a return of `recv` nor a call of the data handler. -/
theorem note_of_not_exchanges (x : Handover) {e : ClientEvent} (h : e.Exchanges = false) : x.note e = x := by
  cases e <;> first | rfl | cases h

theorem handover_quiet (tr : List ClientEvent) {es : List ClientEvent} (h : ∀ e ∈ es, e.Exchanges = false) :
    handover (tr ++ es) = handover tr := by
  rw [handover_append]
  exact Machine.foldl_unchanged fun e he => note_of_not_exchanges _ (h e he)

/-- The message of the handover is the one that awaits a call. -/
theorem handover_message_iff {tr : List ClientEvent} {st : Status} {bs : List Byte} :
    (handover tr).message = some (st, bs) ↔ Awaits tr st bs := by
  constructor
  · intro h
    induction tr using List.reverseRecOn with
    | nil => cases h
    | append_singleton tr e ih =>
        rw [handover_append] at h
        cases he : e.Exchanges with
        | false =>
            rw [List.foldl_cons, List.foldl_nil, note_of_not_exchanges _ he] at h
            obtain ⟨before, after, rfl, hafter⟩ := ih h
            refine ⟨before, after ++ [e], by simp, ?_⟩
            intro e' he'
            rcases List.mem_append.mp he' with he' | he'
            · exact hafter e' he'
            · rw [List.mem_singleton.mp he']
              exact he
        | true =>
            cases e with
            | recv st' r =>
                obtain ⟨bs', rfl, heq⟩ := Option.map_eq_some_iff.mp h
                cases heq
                exact ⟨tr, [], rfl, nofun⟩
            | dataHandler => cases h
            | _ => cases he
  · rintro ⟨before, after, rfl, hafter⟩
    rw [← List.singleton_append, ← List.append_assoc, handover_quiet _ hafter, handover_append]
    rfl

instance ClientEvent.decidableAnswerIsLength (pre : List ClientEvent) :
    ∀ e, Decidable (ClientEvent.AnswerIsLength pre e)
  | .dataHandler .. =>
    decidable_of_iff
      (∀ m ∈ (handover pre).message, m.1 = .suspend → (handover pre).answer.toNat = m.2.length) (by
        simp only [ClientEvent.AnswerIsLength, ← handover_message_iff, Option.mem_def, Prod.forall]
        grind)
  | .iterate | .branch _ | .accessSock | .recv .. | .reread _ | .willSuspend | .didResume | .didDisconnect
  | .releaseSock _ | .releaseClient _ | .freeClient | .suspendClient _ | .resumeClient _ | .setClientStatus _ =>
    isTrue trivial

/-! ## Step and run -/

/-- The program points at which a message of the suspend branch is in the buffer. -/
def ClientPc.HoldsSuspended : ClientPc → Bool
  | .reread | .handleSuspended => true
  | _ => false

/-- The program points at which `s` is what the iterations before have left, or the answer just got. -/
def ClientPc.HasAnswer : ClientPc → Bool
  | .setStatus | .handle | .releaseSock | .didDisconnect | .releaseClient | .freeClient | .done | .freed => false
  | _ => true

/-- The invariant: every call so far was given the number of received bytes iff the last answer was that number
    or the message did not come through a suspension; and where the loop stands at, or before, a call, its
    message is in the buffer, with its length in `s` in the running branch and the last answer in `s` in the
    suspend branch. -/
structure DeliveryInv (c : ClientLoop) (tr : List ClientEvent) : Prop where
  calls     : Machine.EachEvent (fun pre e => e.HandsOver pre ↔ e.AnswerIsLength pre) tr
  running   : c.pc = .handle → ∃ bs, (handover tr).message = some (.running, bs) ∧ c.s.toNat = bs.length ∧
    bs <+: c.client.buf
  suspended : c.pc.HoldsSuspended = true → ∃ bs, (handover tr).message = some (.suspend, bs) ∧
    bs <+: c.client.buf
  fresh     : c.pc = .setStatus → (handover tr).answer = 0
  answered  : c.client.handlers.dataHandler = true → c.pc.HasAnswer = true → c.s = (handover tr).answer

section Step

variable {c c' : ClientLoop} {i : Input} {tr es : List ClientEvent}

/-- Events that are no calls extend a trace. -/
theorem DeliveryInv.calls_append (hi : DeliveryInv c tr)
    (hes : ∀ e ∈ es, ∀ buf len ret, e ≠ .dataHandler buf len ret) :
    Machine.EachEvent (fun pre e => e.HandsOver pre ↔ e.AnswerIsLength pre) (tr ++ es) := by
  apply hi.calls.append
  apply Machine.eachEvent_of_forall
  intro e he pre
  cases e with
  | dataHandler buf len ret => exact absurd rfl (hes _ he buf len ret)
  | _ => exact Iff.rfl

/-- A step without a `recv` or a call keeps the invariant. -/
theorem DeliveryInv.quiet (hi : DeliveryInv c tr) (hes : ∀ e ∈ es, e.Exchanges = false)
    (hrun : c'.pc = .handle → c.pc = .handle ∧ c'.s = c.s ∧ c'.client.buf = c.client.buf)
    (hsus : c'.pc.HoldsSuspended = true → c.pc.HoldsSuspended = true ∧ c'.client.buf = c.client.buf)
    (hfresh : c'.pc = .setStatus → c.pc = .setStatus)
    (hans : c'.client.handlers.dataHandler = true → c'.pc.HasAnswer = true → c'.s = (handover tr).answer) :
    DeliveryInv c' (tr ++ es) := by
  have hcalls : ∀ e ∈ es, ∀ buf len ret, e ≠ .dataHandler buf len ret := by
    rintro e he buf len ret rfl
    cases hes _ he
  refine ⟨hi.calls_append hcalls, ?_, ?_, ?_, ?_⟩ <;> rw [handover_quiet tr hes]
  · intro h
    obtain ⟨hpc, hs, hbuf⟩ := hrun h
    rw [hs, hbuf]
    exact hi.running hpc
  · intro h
    obtain ⟨hpc, hbuf⟩ := hsus h
    rw [hbuf]
    exact hi.suspended hpc
  · exact fun h => hi.fresh (hfresh h)
  · exact hans

/-- A quiet step away from the messages that await a call. -/
theorem DeliveryInv.pass (hi : DeliveryInv c tr) (hes : ∀ e ∈ es, e.Exchanges = false) (hrun : c'.pc ≠ .handle)
    (hsus : c'.pc.HoldsSuspended = false) (hfresh : c'.pc ≠ .setStatus)
    (hans : c'.client.handlers.dataHandler = true → c'.pc.HasAnswer = true → c'.s = (handover tr).answer) :
    DeliveryInv c' (tr ++ es) := by
  refine hi.quiet hes ?_ ?_ ?_ hans
  · exact fun h => absurd h hrun
  · intro h
    rw [hsus] at h
    cases h
  · exact fun h => absurd h hfresh

/-- **One call.** Where the loop stands at a call of the data handler, the call is given the number of received
    bytes iff the last answer was that number or the message did not come through a suspension. -/
theorem DeliveryInv.call (hi : DeliveryInv c tr) (hpc : c.pc = .handle ∨ c.pc = .handleSuspended)
    (hset : c.client.handlers.dataHandler = true) (ret : SizeT) :
    ClientEvent.HandsOver tr (.dataHandler c.client.buf c.s ret) ↔
      ClientEvent.AnswerIsLength tr (.dataHandler c.client.buf c.s ret) := by
  simp only [ClientEvent.HandsOver, ClientEvent.AnswerIsLength, ← handover_message_iff]
  rcases hpc with hpc | hpc
  · obtain ⟨bs, hmsg, hlen, hbuf⟩ := hi.running hpc
    refine iff_of_true ⟨.running, bs, hmsg, hlen, hbuf⟩ ?_
    intro bs' hmsg'
    rw [hmsg] at hmsg'
    cases hmsg'
  · obtain ⟨bs, hmsg, hbuf⟩ := hi.suspended (by rw [hpc]; rfl)
    have hs : c.s = (handover tr).answer := hi.answered hset (by rw [hpc]; rfl)
    rw [hmsg, ← hs]
    constructor
    · rintro ⟨st, bs', heq, hlen, _⟩ bs'' heq'
      cases heq
      cases heq'
      exact hlen
    · intro h
      exact ⟨.suspend, bs, rfl, h bs rfl, hbuf⟩

/-- **The invariant survives every move.** -/
theorem deliveryInv_move (hm : ClientMove c i c' es) (hi : DeliveryInv c tr) : DeliveryInv c' (tr ++ es) := by
  have hans {pc : ClientPc} (hpc : c.pc = pc) (h : pc.HasAnswer = true)
      (hset : c.client.handlers.dataHandler = true) : c.s = (handover tr).answer :=
    hi.answered hset (by rw [hpc]; exact h)
  have hnoCall {st : Status} {r : Option (List Byte)} :
      ∀ e ∈ [ClientEvent.recv st r], ∀ buf len ret, e ≠ .dataHandler buf len ret := by simp
  cases hm with
  | setStatus hpc => exact hi.pass (by simp) nofun rfl nofun fun _ _ => (hi.fresh hpc).symm
  | clear hpc _ | branchRunning hpc _ | branchResuming hpc _ | branchSuspend hpc _ | branchDefault hpc _ _
  | callRecv hpc | setRunning hpc | callRecvSuspended hpc | rereadSkips hpc _ _ | testKeeps hpc _ =>
      exact hi.pass (by simp [ClientEvent.Exchanges]) nofun rfl nofun fun hset _ => hans hpc rfl hset
  | didResume hpc | willSuspend hpc =>
      exact hi.pass (forall_mem_callClientIf (by rfl) _) nofun rfl nofun fun hset _ => hans hpc rfl hset
  | rereadDelivers hpc _ =>
      exact hi.quiet (by simp [ClientEvent.Exchanges]) nofun (fun _ => ⟨by rw [hpc]; rfl, rfl⟩) nofun
        fun hset _ => hans hpc rfl hset
  -- a message arrives, or the loop is left
  | recvFails _ | recvSuspendedFails _ | recvSuspendedEmpty _ =>
      exact ⟨hi.calls_append hnoCall, nofun, nofun, nofun, fun _ => nofun⟩
  | recv hpc bs hok =>
      refine ⟨hi.calls_append hnoCall, ?_, nofun, nofun, fun _ => nofun⟩
      intro _
      rw [handover_append]
      exact ⟨bs, rfl, toNat_recvValue hok, List.prefix_append _ _⟩
  | recvSuspended hpc bs hok _ =>
      refine ⟨hi.calls_append hnoCall, nofun, ?_, nofun, ?_⟩ <;> rw [handover_append]
      · exact fun _ => ⟨bs, rfl, List.prefix_append _ _⟩
      · exact fun hset _ => hans hpc rfl hset
  -- it is handed over
  | handle hpc ret buf hset _ =>
      refine ⟨hi.calls.concat (hi.call hpc hset ret), nofun, nofun, nofun, ?_⟩
      intro _ _
      rw [handover_append]
      rfl
  | handleNull _ hnull =>
      refine hi.pass (by simp) nofun rfl nofun ?_
      intro hset _
      rw [hnull] at hset
      cases hset
  -- behind the loop
  | rereadEnds _ _ | testEnds _ _ | releaseSock _ _ _ _ | freeClient _ _ _ _ =>
      exact hi.pass (by simp [ClientEvent.Exchanges]) nofun rfl nofun fun _ => nofun
  | didDisconnect _ => exact hi.pass (forall_mem_callClientIf (by rfl) _) nofun rfl nofun fun _ => nofun
  | releaseClient _ =>
      cases hfreed : (sxRelease c.client.obj).2 <;>
        exact hi.pass (by simp [ClientEvent.Exchanges]) nofun rfl nofun fun _ => nofun

/-- The invariant of a run. -/
theorem deliveryInv_run {connected : Bool} {client : Client} {err : SXError} {c₀ : ClientLoop}
    {acts : List ClientAct} (hstart : sxStartClient connected client = some (err, some c₀))
    (hrun : Machine.run clientSysStep c₀ acts = some (c, tr)) : DeliveryInv c tr := by
  apply client_run_invariant ?_ ?_ hstart ?_ hrun
  · intro c i c' tr es hi hm
    exact deliveryInv_move hm hi
  · intro c tr st e hi he
    have hquiet : e.Exchanges = false := by cases e <;> first | rfl | cases he
    exact hi.quiet (List.forall_mem_singleton.mpr hquiet) (fun h => ⟨h, rfl, rfl⟩) (fun h => ⟨h, rfl⟩) id hi.answered
  · exact ⟨Machine.eachEvent_nil _, nofun, nofun, fun _ => rfl, fun _ => nofun⟩

end Step

/-! ## Results -/

/-- **A client delivers what it received, where it does.** In every run of the loop that `SXStartClient`
    dispatched, whatever other parties do to the status of the client: every call of the data handler is given the
    bytes of the `recv` before it and their number, each message once, iff every message that gets through a
    suspension is as long as the last answer of the data handler says. -/
theorem client_delivers_iff {connected : Bool} {client : Client} {err : SXError} {c₀ c : ClientLoop}
    {acts : List ClientAct} {tr : List ClientEvent}
    (hstart : sxStartClient connected client = some (err, some c₀))
    (hrun : Machine.run clientSysStep c₀ acts = some (c, tr)) :
    Machine.EachEvent (fun pre e => e.HandsOver pre) tr ↔
      Machine.EachEvent (fun pre e => e.AnswerIsLength pre) tr :=
  Machine.eachEvent_congr (deliveryInv_run hstart hrun).calls

/-- A second message of one byte, behind an answer of `1`. -/
theorem client_delivers_iff_lastMessage :
    ∃ c tr, sxStartClient true listeningClient = some (sxSuccess, some listening) ∧
      Machine.run clientSysStep listening (firstMessage [5] 1 ++ lastMessage 0) = some (c, tr) ∧
      .dataHandler [6] 1 0 ∈ tr ∧ Machine.EachEvent (fun pre e => e.HandsOver pre) tr := by
  have hstart : sxStartClient true listeningClient = some (sxSuccess, some listening) := rfl
  have hrun : Machine.run clientSysStep listening (firstMessage [5] 1 ++ lastMessage 0) = some (_, _) := rfl
  refine ⟨_, _, hstart, hrun, by decide +kernel, (client_delivers_iff hstart hrun).mpr ?_⟩
  decide +kernel

/-- **A stale length.** The data handler answers `2` to the first message; the client is suspended, and resumed while
    it waits for the second, which is one byte long and handed over as two. -/
theorem client_delivers_stale :
    ∃ c tr, sxStartClient true listeningClient = some (sxSuccess, some listening) ∧
      Machine.run clientSysStep listening (firstMessage [5] 2 ++ lastMessage 0) = some (c, tr) ∧
      .recv .suspend (some [6]) ∈ tr ∧ .dataHandler [6] 2 0 ∈ tr ∧
      ¬ Machine.EachEvent (fun pre e => e.HandsOver pre) tr := by
  have hstart : sxStartClient true listeningClient = some (sxSuccess, some listening) := rfl
  have hrun : Machine.run clientSysStep listening (firstMessage [5] 2 ++ lastMessage 0) = some (_, _) := rfl
  have hiff := Machine.eachEvent_congr (deliveryInv_run hstart hrun).calls
  refine ⟨_, _, hstart, hrun, by decide +kernel, by decide +kernel, hiff.not.mpr ?_⟩
  decide +kernel

end SpartanX
