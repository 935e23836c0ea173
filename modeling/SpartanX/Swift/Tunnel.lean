import SpartanX.Swift.Delivery
import SpartanX.Swift.Proxy

/-!
# `Swift.Tunnel` — the two loops of a connection to the Swift proxy

The data handler of the proxy runs in the loop of a queue, and the client it starts has a loop of its own, whose data
handler sends on to the guest what the host has sent. The client takes over the status of the queue, as the queue does
that of the server. In every interleaving the host is sent what the queue's `handleData` received from the first
message that names a host on, and the guest what the client's received (`tunnel_delivers`); what either loop receives
while it is suspended gets to nobody, nor does a first message if `connect` throws.

## Contents
- **The code.** `Tunnel`, `TunnelAct`, `TunnelEvent`, `tunnelStep`.
- **The two ways.** `guestSide`, `hostSide`, `messages`, `toHost`, `relayed`, `forwarded`; and `TunnelView`.
- **What the handlers do.** `effects_unstarted`, `effects_started`, `forwarded_concat`, `runSysStep_quiet`.
- **Step and run.** `TunnelInv`, `tunnel_step`, `tunnel_delivers`.
-/

namespace SpartanX

open CInt

/-! ## The code -/

/-- A connection to the proxy: the loop of its queue, the host the client bound to the queue is for, and the loop of
    the client, if its `start` has dispatched one. -/
structure Tunnel where
  queue  : RunLoop
  bound  : Option (List UInt8) := none
  client : Option RunLoop      := none
  deriving DecidableEq, Repr

/-- What happens: the queue's loop takes a step, with the server as it is then; or its handler is called, `connected`
    telling whether `connect` returns; or the client's loop takes a step; or somebody writes a status. -/
inductive TunnelAct
  | queue (server : Controller) (i : RunInput)
  | handle (message : Message) (connected : Bool)
  | client (i : RunInput)
  | setQueueStatus (st : SXStatus)
  | setClientStatus (st : SXStatus)

/-- What can be observed: the events of the two loops, the calls of the queue's handler, and what is sent: back to the
    guest by the queue's handler, to the host, and to the guest by the client's handler. -/
inductive TunnelEvent
  | queue (e : RunEvent)
  | client (e : RunEvent)
  | handled (message : Message)
  | toGuest (data : List UInt8)
  | toHost (data : List UInt8)
  | relayed (data : List UInt8)

/-- What a client reads of the queue it is bound to. -/
def RunLoop.asOwner (queue : RunLoop) : Controller :=
  { status := queue.object.status, recvFlag := queue.object.recvFlag, sendFlag := queue.object.sendFlag }

/-- `SXStreamClient(hostname:service:handler:)`: the default `bufsize`, and no delegate. -/
def proxyClient : RunObject := { delegate := false }

/-- What others see of what the queue's handler does, `start` sending the first payload if it can connect. -/
def ProxyEffect.events (connected : Bool) : ProxyEffect → List TunnelEvent
  | .toGuest data    => [.toGuest data]
  | .start _ payload => (sxStreamClientStart connected (some payload) proxyClient).1.map .client
  | .toHost data     => [.toHost data]

/-- The loop that is dispatched. -/
def ProxyEffect.loop (connected : Bool) : ProxyEffect → Option RunLoop
  | .start _ payload => (sxStreamClientStart connected (some payload) proxyClient).2
  | _                => none

/-- What the client's handler sends to the guest. -/
def RunEvent.relay : RunEvent → List TunnelEvent
  | .didReceive data _ _ => [.relayed data]
  | _                    => []

/-- The handler of the client returns true and leaves the data as they are. -/
def RunLoop.answer (client : RunLoop) : RunInput → RunInput
  | .proceed _ _ => .proceed true client.data
  | i            => i

/-- One step. The handler of the queue, too, returns true and leaves the data as they are. -/
def tunnelStep (behind : List UInt8 → Nat → UInt8) (t : Tunnel) : TunnelAct → Option (Tunnel × List TunnelEvent)
  | .queue server i =>
    -- a call of the handler is the step below
    if t.queue.pc = .didReceive then none
    else (runStep .queue (some server) t.queue i).map fun (queue, es) => ({ t with queue := queue }, es.map .queue)
  | .handle message connected =>
    if message.data.contents = t.queue.data then
      match runStep .queue none t.queue (.proceed true t.queue.data), swiftProxyReceive behind t.bound message with
      | some (queue, es), .ok (bound, effects) =>
        some ({ queue := queue, bound := bound, client := t.client.or (effects.findSome? (·.loop connected)) },
          es.map .queue ++ .handled message :: effects.flatMap (·.events connected))
      | _, _ => none
    else none
  | .client i =>
    match t.client with
    | none        => none
    | some client =>
      (runStep .client (some t.queue.asOwner) client (client.answer i)).map fun (client, es) =>
        ({ t with client := some client }, es.map .client ++ es.flatMap RunEvent.relay)
  | .setQueueStatus st =>
    (runSysStep .queue t.queue (.setStatus st)).map fun (queue, es) => ({ t with queue := queue }, es.map .queue)
  | .setClientStatus st =>
    match t.client with
    | none        => none
    | some client =>
      (runSysStep .client client (.setStatus st)).map fun (client, es) =>
        ({ t with client := some client }, es.map .client)

/-! ## The two ways -/

/-- The events of the queue's loop. -/
def guestSide (tr : List TunnelEvent) : List RunEvent :=
  tr.filterMap fun e => match e with | .queue e => some e | _ => none

/-- The events of the client and its loop. -/
def hostSide (tr : List TunnelEvent) : List RunEvent :=
  tr.filterMap fun e => match e with | .client e => some e | _ => none

/-- The messages the queue's handler has been called with. -/
def messages (tr : List TunnelEvent) : List Message :=
  tr.filterMap fun e => match e with | .handled message => some message | _ => none

/-- What `start` and the queue's handler have sent on the socket of the client. -/
def toHost (tr : List TunnelEvent) : List (List UInt8) :=
  tr.filterMap fun e => match e with | .toHost data | .client (.send data) => some data | _ => none

/-- What the client's handler has sent on the socket of the queue, which may be closed by then. -/
def relayed (tr : List TunnelEvent) : List (List UInt8) :=
  tr.filterMap fun e => match e with | .relayed data => some data | _ => none

/-- The messages to pass on: from the first one on that names a host, but for those that are sent back. -/
def forwarded (ms : List Message) : List Message := (ms.dropWhile fun m => m.host.isNone).filter Message.read

/-- What the invariant looks at of a trace. -/
structure TunnelView where
  guest    : List RunEvent
  host     : List RunEvent
  messages : List Message
  toHost   : List (List UInt8)
  relayed  : List (List UInt8)

def view (tr : List TunnelEvent) : TunnelView where
  guest    := guestSide tr
  host     := hostSide tr
  messages := messages tr
  toHost   := toHost tr
  relayed  := relayed tr

def TunnelView.append (v w : TunnelView) : TunnelView where
  guest    := v.guest ++ w.guest
  host     := v.host ++ w.host
  messages := v.messages ++ w.messages
  toHost   := v.toHost ++ w.toHost
  relayed  := v.relayed ++ w.relayed

theorem view_append (tr es : List TunnelEvent) : view (tr ++ es) = (view tr).append (view es) := by
  unfold view TunnelView.append guestSide hostSide messages toHost relayed
  simp only [List.filterMap_append]

/-- The events of the queue's loop. -/
theorem view_queue (es : List RunEvent) :
    view (es.map .queue) = { guest := es, host := [], messages := [], toHost := [], relayed := [] } := by
  simp [view, guestSide, hostSide, messages, toHost, relayed, List.filterMap_map]

/-- Those of the client's, which does not send. -/
theorem view_client {es : List RunEvent} (hes : ∀ e ∈ es, ∀ payload, e ≠ .send payload) :
    view (es.map .client) = { guest := [], host := es, messages := [], toHost := [], relayed := [] } := by
  have hsent : toHost (es.map .client) = [] := by
    refine List.filterMap_eq_nil_iff.mpr ?_
    simp only [List.forall_mem_map]
    intro e he
    cases e with
    | send payload => exact absurd rfl (hes _ he payload)
    | _ => rfl
  simp [view, hsent, guestSide, hostSide, messages, relayed, List.filterMap_map]

/-- What the client's handler sends is what it has been given. -/
theorem view_relay (es : List RunEvent) :
    view (es.flatMap RunEvent.relay) =
      { guest := [], host := [], messages := [], toHost := [], relayed := handed es } := by
  induction es with
  | nil => rfl
  | cons e es ih =>
      rw [List.flatMap_cons, view_append, ih]
      cases e <;> rfl

/-! ## What the handlers do -/

section Effects

variable {effects : List ProxyEffect} {connected : Bool}

/-- A handler that starts no client. -/
theorem effects_unstarted (h : effects.filterMap ProxyEffect.started = []) :
    effects.findSome? (·.loop connected) = none ∧
      view (effects.flatMap (·.events connected)) =
        { guest := [], host := [], messages := [], toHost := effects.filterMap ProxyEffect.payload,
          relayed := [] } := by
  induction effects with
  | nil => exact ⟨rfl, rfl⟩
  | cons e effects ih =>
      cases e with
      | start => cases h
      | toGuest data =>
          obtain ⟨hloop, hview⟩ := ih h
          rw [List.flatMap_cons, view_append, hview]
          exact ⟨hloop, rfl⟩
      | toHost data =>
          obtain ⟨hloop, hview⟩ := ih h
          rw [List.flatMap_cons, view_append, hview]
          exact ⟨hloop, rfl⟩

/-- A handler that starts one, and has nothing else to send to the host. -/
theorem effects_started {domain payload : List UInt8} (hstarted : effects.filterMap ProxyEffect.started = [domain])
    (hpayload : effects.filterMap ProxyEffect.payload = [payload]) :
    effects.findSome? (·.loop connected) = (if connected then some { object := proxyClient } else none) ∧
      view (effects.flatMap (·.events connected)) =
        { guest := [], host := if connected then [.send payload] else [.didFail], messages := [],
          toHost := if connected then [payload] else [], relayed := [] } := by
  induction effects with
  | nil => cases hstarted
  | cons e effects ih =>
      cases e with
      | toGuest data =>
          obtain ⟨hloop, hview⟩ := ih hstarted hpayload
          rw [List.flatMap_cons, view_append, hview]
          exact ⟨hloop, rfl⟩
      | start domain' payload' =>
          have hrest : effects.filterMap ProxyEffect.started = [] := (List.cons.inj hstarted).2
          have hquiet : effects.filterMap ProxyEffect.payload = [] := (List.cons.inj hpayload).2
          obtain rfl : payload' = payload := (List.cons.inj hpayload).1
          have hunstarted := @effects_unstarted effects connected hrest
          rw [List.findSome?_cons, List.flatMap_cons, view_append, hunstarted.2, hquiet, hunstarted.1]
          cases connected <;> exact ⟨rfl, rfl⟩
      | toHost data =>
          -- whoever starts a client has a payload
          have hquiet : effects.filterMap ProxyEffect.payload = [] := (List.cons.inj hpayload).2
          have hstart : effects.filterMap ProxyEffect.started = [domain] := hstarted
          have hnone : effects.filterMap ProxyEffect.started = [] := by
            refine List.filterMap_eq_nil_iff.mpr fun e he => ?_
            have hpay := List.filterMap_eq_nil_iff.mp hquiet e he
            cases e with
            | start => cases hpay
            | _ => rfl
          rw [hnone] at hstart
          cases hstart

end Effects

/-- One more message. -/
theorem forwarded_concat (ms : List Message) (m : Message) :
    forwarded (ms ++ [m]) =
      forwarded ms ++ if ((ms.findSome? Message.host).or m.host).isSome && m.read then [m] else [] := by
  induction ms with
  | nil =>
      unfold forwarded
      cases hhost : m.host <;> cases hread : m.read <;> simp [hhost, hread]
  | cons m₀ ms ih =>
      unfold forwarded at ih ⊢
      rw [List.cons_append, List.dropWhile_cons, List.dropWhile_cons, List.findSome?_cons]
      cases hhost : m₀.host with
      | none => exact ih
      | some host =>
          rw [Option.isNone_some, if_neg Bool.false_ne_true, if_neg Bool.false_ne_true, ← List.cons_append,
            List.filter_append]
          cases hread : m.read <;> simp [hread]

/-- Before a message names a host none is to be passed on, and after it that message is. -/
theorem forwarded_eq_nil_iff (ms : List Message) : forwarded ms = [] ↔ ms.findSome? Message.host = none := by
  induction ms with
  | nil => exact ⟨fun _ => rfl, fun _ => rfl⟩
  | cons m ms ih =>
      unfold forwarded at ih ⊢
      rw [List.dropWhile_cons, List.findSome?_cons]
      cases hhost : m.host with
      | none => exact ih
      | some host =>
          have hread : m.read = true := Message.read_of_host (by rw [hhost]; rfl)
          simp [hread]

/-- What a step of a loop hands over and sends. -/
theorem runSysStep_quiet {runner : Runner} {c c' : RunLoop} {a : RunAct} {es : List RunEvent}
    (hs : runSysStep runner c a = some (c', es)) :
    (c.pc ≠ .didReceive → handed es = []) ∧ ∀ e ∈ es, ∀ payload, e ≠ .send payload := by
  have htold {es : List RunEvent} {st : SXStatus} (hes : ∀ e ∈ es, e = .statusDidChange st) :
      handed es = [] ∧ ∀ e ∈ es, ∀ payload, e ≠ .send payload := by
    refine ⟨List.filterMap_eq_nil_iff.mpr fun e he => ?_, fun e he => ?_⟩
    · rw [hes e he]
      rfl
    · rw [hes e he]
      exact fun _ => nofun
  cases a with
  | setStatus st =>
      cases hs
      simp [handed, RunEvent.handed]
  | loop owner i =>
      cases runStep_move hs with
      | didReceive hpc => simp [hpc]
      | tellResumed _ _ _ hes => exact ⟨fun _ => (htold hes).1, (htold hes).2⟩
      | tellSuspended _ _ _ hes => exact ⟨fun _ => (htold hes).1, (htold hes).2⟩
      | tellKilled _ _ _ hes => exact ⟨fun _ => (htold hes).1, (htold hes).2⟩
      | willKill _ _ hes => rcases hes with rfl | rfl <;> simp [handed, RunEvent.handed]
      | _ => simp [handed, RunEvent.handed]

/-! ## Step and run -/

/-- The invariant: either loop hands over what it received, and the two handlers have sent on what they have been
    given. -/
structure TunnelInv (t : Tunnel) (v : TunnelView) : Prop where
  guest   : RunStreamInv .queue t.queue v.guest
  handled : handed v.guest = v.messages.map (·.data.contents)
  bound   : t.bound = v.messages.findSome? Message.host
  unbound : t.bound = none → t.client = none ∧ v.host = []
  host    : ∀ client, t.client = some client → RunStreamInv .client client v.host
  unheard : t.client = none → handed v.host = [] ∧ (reading v.host).taken = []
  relayed : v.relayed = handed v.host
  sent    : v.toHost = ((forwarded v.messages).map (·.data.contents)).drop (if t.client.isSome then 0 else 1)

section Step

variable {behind : List UInt8 → Nat → UInt8} {t t' : Tunnel} {tr es : List TunnelEvent} {v : TunnelView}

/-- A loop that has been dispatched behind a payload. -/
theorem RunStreamInv.dispatched (object : RunObject) (payload : List UInt8) :
    RunStreamInv .client { object := object } [.send payload] := by
  have h0 : RunStreamInv .client { object := object } [] := ⟨nofun, nofun, rfl, rfl⟩
  have hneutral : ∀ e ∈ [RunEvent.send payload], e.Neutral := by
    simp [RunEvent.Neutral, RunReading.note, RunEvent.handed]
  exact h0.pass hneutral id id rfl rfl

/-- A step of the queue's loop in which its handler is not called. -/
theorem TunnelInv.queue_step {a : RunAct} {queue : RunLoop} {es : List RunEvent} (hi : TunnelInv t (view tr))
    (hquiet : handed es = []) (hs : runSysStep .queue t.queue a = some (queue, es)) :
    TunnelInv { t with queue := queue } (view (tr ++ es.map .queue)) := by
  rw [view_append, view_queue]
  unfold TunnelView.append
  simp only [List.append_nil]
  refine { hi with guest := runStream_step hi.guest hs, handled := ?_ }
  rw [handed_append, hquiet, List.append_nil]
  exact hi.handled

/-- A step of the client's loop, with what its handler sends. -/
theorem TunnelInv.client_step {a : RunAct} {client client' : RunLoop} {es : List RunEvent}
    (hi : TunnelInv t (view tr)) (hclient : t.client = some client)
    (hs : runSysStep .client client a = some (client', es)) :
    TunnelInv { t with client := some client' } (view (tr ++ (es.map .client ++ es.flatMap RunEvent.relay))) := by
  rw [view_append, view_append, view_client (runSysStep_quiet hs).2, view_relay]
  unfold TunnelView.append
  simp only [List.append_nil, List.nil_append]
  refine ⟨hi.guest, hi.handled, hi.bound, ?_, ?_, nofun, ?_, ?_⟩
  · intro h
    have hnone := (hi.unbound h).1
    rw [hclient] at hnone
    cases hnone
  · rintro _ ⟨⟩
    exact runStream_step (hi.host client hclient) hs
  · rw [handed_append, hi.relayed]
  · have hsent := hi.sent
    rw [hclient] at hsent
    exact hsent

/-- A call of the handler that starts no client. -/
theorem TunnelInv.keep {message : Message} {queue : RunLoop} {e : RunEvent} (hi : TunnelInv t v)
    (hguest : RunStreamInv .queue queue (v.guest ++ [e])) (hhanded : handed [e] = [message.data.contents])
    (hhost : t.bound.isSome ∨ message.host = none) :
    TunnelInv { t with queue := queue } (v.append
      ⟨[e], [], [message], if t.bound.isSome && message.read then [message.data.contents] else [], []⟩) := by
  have hbound : t.bound.or message.host = t.bound := by
    rcases hhost with hsome | hnone
    · exact Option.or_of_isSome hsome
    · rw [hnone, Option.or_none]
  have hforwarded := forwarded_concat v.messages message
  rw [← hi.bound, hbound] at hforwarded
  unfold TunnelView.append
  simp only [List.append_nil]
  refine { hi with guest := hguest, handled := ?_, bound := ?_, sent := ?_ }
  · rw [handed_append, hi.handled, hhanded, List.map_append, List.map_singleton]
  · rw [List.findSome?_append, ← hi.bound, List.findSome?_singleton, hbound]
  · rw [hforwarded, hi.sent, List.map_append]
    cases hpass : t.bound.isSome && message.read with
    | false => simp
    | true =>
        -- some message before is passed on
        have hsome : t.bound.isSome = true := (Bool.and_eq_true_iff.mp hpass).1
        have hne : forwarded v.messages ≠ [] := by
          rw [ne_eq, forwarded_eq_nil_iff, ← hi.bound, ← ne_eq, Option.ne_none_iff_isSome]
          exact hsome
        have hle : (if t.client.isSome then 0 else 1) ≤ ((forwarded v.messages).map (·.data.contents)).length := by
          have hpos := List.length_pos_of_ne_nil hne
          rw [List.length_map]
          split <;> omega
        rw [if_pos rfl, if_pos rfl, List.drop_append_of_le_length hle, List.map_singleton]

/-- A call of the handler for the first message that names a host. -/
theorem TunnelInv.start {message : Message} {queue : RunLoop} {e : RunEvent} {host : List UInt8}
    (hi : TunnelInv t v) (hguest : RunStreamInv .queue queue (v.guest ++ [e]))
    (hhanded : handed [e] = [message.data.contents]) (hbound : t.bound = none) (hhost : message.host = some host)
    (connected : Bool) :
    TunnelInv
      { queue := queue, bound := some host, client := if connected then some { object := proxyClient } else none }
      (v.append ⟨[e], if connected then [.send message.data.contents] else [.didFail], [message],
        if connected then [message.data.contents] else [], []⟩) := by
  have hread : message.read = true := Message.read_of_host (by rw [hhost]; rfl)
  obtain ⟨-, hsilent⟩ := hi.unbound hbound
  have hempty : forwarded v.messages = [] := (forwarded_eq_nil_iff _).mpr (hi.bound.symm.trans hbound)
  have hsent : v.toHost = [] := by
    rw [hi.sent, hempty]
    exact List.drop_nil
  have hforwarded : forwarded (v.messages ++ [message]) = [message] := by
    rw [forwarded_concat, ← hi.bound, hbound, hhost, hread, hempty]
    rfl
  have hrelayed : v.relayed = [] := by
    rw [hi.relayed, hsilent]
    rfl
  have hhandled : handed (v.guest ++ [e]) = (v.messages ++ [message]).map (·.data.contents) := by
    rw [handed_append, hi.handled, hhanded, List.map_append, List.map_singleton]
  have hnow : some host = (v.messages ++ [message]).findSome? Message.host := by
    rw [List.findSome?_append, ← hi.bound, hbound, List.findSome?_singleton, hhost]
    rfl
  unfold TunnelView.append
  simp only [hsilent, hsent, hrelayed, List.nil_append]
  cases connected with
  | false =>
      refine ⟨hguest, hhandled, hnow, nofun, ?_, fun _ => ⟨rfl, rfl⟩, rfl, ?_⟩
      · intro client h
        rw [if_neg Bool.false_ne_true] at h
        cases h
      · rw [hforwarded]
        rfl
  | true =>
      refine ⟨hguest, hhandled, hnow, nofun, ?_, nofun, rfl, ?_⟩
      · rintro _ ⟨⟩
        exact .dispatched _ _
      · rw [hforwarded]
        rfl

/-- What a call of the handler does. -/
theorem TunnelInv.handle_step {message : Message} {connected : Bool} (hi : TunnelInv t (view tr))
    (hs : tunnelStep behind t (.handle message connected) = some (t', es)) : TunnelInv t' (view (tr ++ es)) := by
  unfold tunnelStep at hs
  dsimp only at hs
  split at hs
  case isFalse => cases hs
  case isTrue hdata =>
    split at hs
    case h_2 => cases hs
    case h_1 queue es' bound effects hrun hreceive =>
      cases hs
      have hpasses := (swiftProxyReceive_ok behind t.bound message).2 _ _ hreceive
      have hguest := runStream_step (a := .loop none (.proceed true t.queue.data)) hi.guest hrun
      -- the loop is at the call
      obtain ⟨e, rfl, hhanded⟩ : ∃ e, es' = [e] ∧ handed [e] = [message.data.contents] := by
        cases hpc : t.queue.pc <;> simp only [runStep, hpc, reduceCtorEq] at hrun
        cases hrun
        exact ⟨_, rfl, congrArg (fun data => [data]) hdata.symm⟩
      have hview : view ([e].map .queue ++ .handled message :: effects.flatMap (·.events connected)) =
          (TunnelView.mk [e] [] [message] [] []).append (view (effects.flatMap (·.events connected))) := rfl
      have hstarted := hpasses.started
      have hpayloads := hpasses.payloads
      have hbound := hpasses.bound
      rw [view_append, hview]
      by_cases hhost : t.bound.isSome ∨ message.host = none
      · have hkept : bound = t.bound := by
          rcases hhost with hsome | hnone
          · exact hbound.trans (Option.or_of_isSome hsome)
          · rw [hbound, hnone, Option.or_none]
        have hnone : effects.filterMap ProxyEffect.started = [] := by
          rcases hhost with hsome | hnone
          · rw [hstarted, if_pos hsome]
          · rw [hstarted, hnone]
            exact ite_self _
        subst hkept
        obtain ⟨hloop, heffects⟩ := @effects_unstarted effects connected hnone
        rw [hloop, heffects, hpayloads, Option.or_none]
        exact hi.keep hguest hhanded hhost
      · rw [not_or, Option.not_isSome_iff_eq_none, ← ne_eq, Option.ne_none_iff_exists'] at hhost
        obtain ⟨hnone, host, hhost⟩ := hhost
        rw [hnone, hhost] at hbound
        subst hbound
        rw [Message.read_of_host (by rw [hhost]; rfl)] at hpayloads
        rw [hnone, hhost] at hstarted
        obtain ⟨hloop, heffects⟩ := @effects_started effects connected _ _ hstarted hpayloads
        rw [hloop, heffects, (hi.unbound hnone).1, Option.none_or]
        exact hi.start hguest hhanded hnone hhost connected

/-- **The invariant survives every step.** -/
theorem tunnel_step {a : TunnelAct} (hi : TunnelInv t (view tr)) (hs : tunnelStep behind t a = some (t', es)) :
    TunnelInv t' (view (tr ++ es)) := by
  cases a with
  | queue server i =>
      unfold tunnelStep at hs
      dsimp only at hs
      split at hs
      · cases hs
      · next hpc =>
          obtain ⟨⟨queue, es'⟩, hrun, heq⟩ := Option.map_eq_some_iff.mp hs
          cases heq
          have hrun' : runSysStep .queue t.queue (.loop (some server) i) = some (queue, es') := hrun
          exact hi.queue_step ((runSysStep_quiet hrun').1 hpc) hrun'
  | handle message connected => exact hi.handle_step hs
  | client i =>
      unfold tunnelStep at hs
      dsimp only at hs
      split at hs
      · cases hs
      · next client hclient =>
          obtain ⟨⟨client', es'⟩, hrun, heq⟩ := Option.map_eq_some_iff.mp hs
          cases heq
          exact hi.client_step (a := .loop (some t.queue.asOwner) (client.answer i)) hclient hrun
  | setQueueStatus st =>
      cases hs
      exact hi.queue_step (a := .setStatus st) rfl rfl
  | setClientStatus st =>
      unfold tunnelStep at hs
      dsimp only at hs
      split at hs
      · cases hs
      · next client hclient =>
          cases hs
          exact hi.client_step (a := .setStatus st) hclient rfl

end Step

/-- What the loop of the client is about to hand to its handler. -/
def Tunnel.clientPending (t : Tunnel) : List (List UInt8) := t.client.elim [] RunLoop.pending

/-- **A connection to the Swift proxy, both ways.** In every interleaving of the two loops and of whoever writes
    statuses, whatever the server's status is: the queue's handler has been called with what the queue's `handleData`
    received, in order, up to what is about to be handed over. The client is for the host that the first message that
    names one names. On its socket has been sent, as it is and in order, what the handler was called with from that
    message on, but for messages of less than two bytes, and but for that first one if `connect` threw. And on the
    socket of the queue the client's handler has sent what the `handleData` of the client received, in order, up to
    what is about to be handed over. -/
theorem tunnel_delivers {behind : List UInt8 → Nat → UInt8} {object : RunObject} {acts : List TunnelAct} {t : Tunnel}
    {tr : List TunnelEvent}
    (hrun : Machine.run (tunnelStep behind) { queue := sxQueueStart object } acts = some (t, tr)) :
    (messages tr).map (·.data.contents) ++ t.queue.pending = (reading (guestSide tr)).taken ∧
      t.bound = (messages tr).findSome? Message.host ∧
      toHost tr = ((forwarded (messages tr)).map (·.data.contents)).drop (if t.client.isSome then 0 else 1) ∧
      relayed tr ++ t.clientPending = (reading (hostSide tr)).taken := by
  have h0 : TunnelInv { queue := sxQueueStart object } (view []) :=
    { guest   := ⟨nofun, nofun, rfl, rfl⟩
      handled := rfl
      bound   := rfl
      unbound := fun _ => ⟨rfl, rfl⟩
      host    := fun _ h => absurd h.symm (Option.some_ne_none _)
      unheard := fun _ => ⟨rfl, rfl⟩
      relayed := rfl
      sent    := rfl }
  have hi : TunnelInv t (view tr) :=
    Machine.run_invariant (I := fun t tr => TunnelInv t (view tr)) (fun _ _ _ _ _ => tunnel_step) h0 hrun
  refine ⟨?_, hi.bound, hi.sent, ?_⟩
  · have hguest := hi.guest.handed
    rw [hi.handled] at hguest
    exact hguest
  · have hrelayed : relayed tr = handed (hostSide tr) := hi.relayed
    rw [hrelayed]
    unfold Tunnel.clientPending
    cases hclient : t.client with
    | none =>
        obtain ⟨hhanded, htaken⟩ := hi.unheard hclient
        exact (congrArg (· ++ []) hhanded).trans htaken.symm
    | some client => exact (hi.host client hclient).handed

/-- A request is passed on and answered, and so is what comes after it; then the queue is suspended, and the client
    with it, and the next answer is lost. -/
def suspendedTunnel : List TunnelAct :=
  List.replicate 4 (.queue { status := .running } .tick) ++
  [.queue { status := .running } (.receive (some getFromB)), .handle (.ofBytes getFromB) true] ++
  List.replicate 3 (.client .tick) ++ [.client (.receive (some [104, 105])), .client (.proceed false [])] ++
  List.replicate 4 (.queue { status := .running } .tick) ++
  [.queue { status := .running } (.receive (some [98, 121, 101])), .handle (.ofBytes [98, 121, 101]) true,
    .setQueueStatus .suspended] ++
  List.replicate 6 (.client .tick) ++ [.client (.receive (some [33]))]

theorem tunnel_delivers_suspendedTunnel :
    ∃ t tr, Machine.run (tunnelStep fun _ _ => 0) { queue := sxQueueStart {} } suspendedTunnel = some (t, tr) ∧
      (reading (hostSide tr)).receipts = [(false, some [104, 105]), (true, some [33])] ∧
      toHost tr = [getFromB, [98, 121, 101]] ∧ relayed tr = [[104, 105]] := by
  have hvalues : (Machine.run (tunnelStep fun _ _ => 0) { queue := sxQueueStart {} } suspendedTunnel).map
      (fun r => ((reading (hostSide r.2)).receipts, (forwarded (messages r.2)).map (·.data.contents),
        r.1.client.isSome, r.1.clientPending)) =
      some ([(false, some [104, 105]), (true, some [33])], [getFromB, [98, 121, 101]], true, []) := by
    decide +kernel
  obtain ⟨⟨t, tr⟩, hrun, hvalues⟩ := Option.map_eq_some_iff.mp hvalues
  simp only [Prod.mk.injEq] at hvalues
  obtain ⟨hreceipts, hforwarded, hclient, hpending⟩ := hvalues
  obtain ⟨_, _, hsent, hrelayed⟩ := tunnel_delivers hrun
  rw [hforwarded, hclient] at hsent
  rw [hpending, List.append_nil] at hrelayed
  unfold RunReading.taken at hrelayed
  rw [hreceipts] at hrelayed
  exact ⟨t, tr, hrun, hreceipts, hsent, hrelayed⟩

end SpartanX
