import SpartanX.Client.Loop
import SpartanX.Rounds

/-!
# `Client.Exit` — after which iterations the loop of a client ends

The loop should end for a reason of its last iteration: a status that ends it, a closed or failed connection,
or a data handler that answers `0`. The exit test reads a variable instead, `s`, which an iteration may leave
alone. It then holds what the iterations before left: `0` before the first iteration, the answer of a data
handler afterwards. The loop ends for the right reasons iff no iteration makes the difference visible
(`client_exit_iff`).

## Contents
- **The rule.** `Round.EndsRightly`, `Round.PassesBy`, `Round.ClientAgrees`.
- **What a finished iteration is.** `Round.ClientOutcome`, one case per way through the body.
- **Step and run.** `ClientPc.RoundIs`, `ExitInv`, `exitInv_move`, `exitInv_run`.
- **Results.** `client_exit_iff`, `client_exit_defects`.
-/

namespace SpartanX

open CInt

/-! ## The rule -/

/-- The rule for a finished iteration: the loop ended after it iff its status was `should_terminate` or `idle`
    (at the `switch`, or when it was read again after a `recv`), or `recv` returned `0` or `-1`, or the data
    handler returned `0`. -/
def Round.EndsRightly (r : Round) : Prop :=
  r.kept = false ↔
    (∃ st ∈ r.status, st.Ends) ∨ (∃ st ∈ r.reread, st.Ends) ∨
      r.recv = some (some []) ∨ r.recv = some none ∨ r.ret = some 0

/-- The iterations that leave `s` alone: they receive nothing, or find a status after their `recv` that neither
    ends the loop nor delivers the message. -/
def Round.PassesBy (r : Round) : Prop :=
  r.recv = none ∨ ∃ st ∈ r.reread, ¬ st.Ends ∧ ¬ st.Delivers

/-- The iterations in which the loop agrees with the rule: where a running client receives nothing, its handler
    answers `0`; and one that leaves `s` alone finds a status that ends the loop iff it is the first one. -/
def Round.ClientAgrees (first : Bool) (r : Round) : Prop :=
  (r.status = some .running → r.recv = some (some []) → r.ret = some 0) ∧
    (r.PassesBy → (first = true ↔ ∃ st ∈ r.status, st.Ends))

instance (r : Round) : Decidable r.EndsRightly := inferInstanceAs (Decidable (_ ↔ _ ∨ _ ∨ _ ∨ _ ∨ _))
instance (r : Round) : Decidable r.PassesBy := inferInstanceAs (Decidable (_ ∨ _))
instance (first : Bool) (r : Round) : Decidable (r.ClientAgrees first) :=
  inferInstanceAs (Decidable ((_ → _ → _) ∧ (_ → (_ ↔ _))))

/-- What an event of a client means for its iterations. -/
def ClientEvent.round : ClientEvent → Option RoundEvent
  | .iterate             => some .start
  | .branch st           => some (.switch st)
  | .recv _ r            => some (.recv r)
  | .reread st           => some (.reread st)
  | .dataHandler _ _ ret => some (.answer ret)
  | .releaseSock _       => some .leave
  | _                    => none

/-! ## What a finished iteration is -/

/-- The ways through the body of the loop, when the data handler is set. `first` says whether `s` still has its
    initial value. -/
inductive Round.ClientOutcome (first : Bool) : Round → Prop
  | recvFails : ClientOutcome first { status := some .running, recv := some none }
  | answered (bs : List Byte) (ret : SizeT) : ClientOutcome first
      { status := some .running, recv := some (some bs), ret := some ret, kept := decide (ret ≠ 0) }
  | passes (st : Status) (hr : st ≠ .running) (hs : st ≠ .suspend) :
      ClientOutcome first { status := some st, kept := !first }
  | closed (r : Option (List Byte)) (hr : r = none ∨ r = some []) :
      ClientOutcome first { status := some .suspend, recv := some r }
  | ended (bs : List Byte) (st : Status) (hst : st.Ends) :
      ClientOutcome first { status := some .suspend, recv := some (some bs), reread := some st }
  | delivered (bs : List Byte) (hne : bs ≠ []) (st : Status) (hst : st.Delivers) (ret : SizeT) :
      ClientOutcome first
      { status := some .suspend, recv := some (some bs), reread := some st, ret := some ret
        kept := decide (ret ≠ 0) }
  | skipped (bs : List Byte) (hne : bs ≠ []) (st : Status) (he : ¬ st.Ends) (hd : ¬ st.Delivers) :
      ClientOutcome first
      { status := some .suspend, recv := some (some bs), reread := some st, kept := !first }

theorem Status.Delivers.not_ends {st : Status} (h : st.Delivers) : ¬ st.Ends := by
  rcases h with rfl | rfl <;> decide

theorem not_ends_running : ¬ Status.running.Ends := by decide
theorem not_ends_suspend : ¬ Status.suspend.Ends := by decide

/-- **The loop agrees with the rule where it says so**, one way through the body at a time. -/
theorem Round.ClientOutcome.ends_iff {first : Bool} {r : Round} (h : r.ClientOutcome first) :
    r.EndsRightly ↔ r.ClientAgrees first := by
  unfold Round.EndsRightly Round.ClientAgrees Round.PassesBy
  cases h with
  | recvFails => simp
  | answered bs ret => simp [not_ends_running]
  | passes st hr _ => cases first <;> simp [hr]
  | closed r hr => rcases hr with rfl | rfl <;> simp
  | ended bs st hst => simp [hst]
  | delivered bs hne st hst ret => simp [hst, hst.not_ends, hne, not_ends_suspend]
  | skipped bs hne st he hd => cases first <;> simp [he, hd, hne, not_ends_suspend]

/-! ## Step and run -/

/-- What the current iteration is when the loop stands at a program point with the value `s`. At the points that
    `s` reaches from the iterations before, it is zero iff there are none. -/
def ClientPc.RoundIs (s : SizeT) (first : Bool) (cur : Option Round) : ClientPc → Prop
  | .setStatus       => cur = none ∧ first = true
  | .clear           =>
    (cur = none ∧ first = true ∧ s = 0) ∨
      (s ≠ 0 ∧ ∃ r, cur = some r ∧ ({ r with kept := true } : Round).ClientOutcome first)
  | .branch          => cur = some {} ∧ first = decide (s = 0)
  | .callRecv | .recv => cur = some { status := some .running }
  | .handle          => ∃ bs, cur = some { status := some .running, recv := some (some bs) }
  | .setRunning | .didResume => cur = some { status := some .resuming } ∧ first = decide (s = 0)
  | .willSuspend | .callRecvSuspended | .recvSuspended =>
    cur = some { status := some .suspend } ∧ first = decide (s = 0)
  | .reread          =>
    ∃ bs, bs ≠ [] ∧ cur = some { status := some .suspend, recv := some (some bs) } ∧ first = decide (s = 0)
  | .handleSuspended =>
    ∃ bs st, bs ≠ [] ∧ st.Delivers ∧
      cur = some { status := some .suspend, recv := some (some bs), reread := some st }
  | .test            => ∃ r, cur = some r ∧ ({ r with kept := decide (s ≠ 0) } : Round).ClientOutcome first
  | .releaseSock     => ∃ r, cur = some r ∧ ({ r with kept := false } : Round).ClientOutcome first
  | _                => cur = none

/-- The data handler is set, the finished iterations have an outcome, the current one is as far as the loop is. -/
structure ExitInv (c : ClientLoop) (w : Rounds) : Prop where
  handled  : c.client.handlers.dataHandler = true
  finished : Machine.EachEvent (fun before r => r.ClientOutcome before.isEmpty) w.finished
  current  : c.pc.RoundIs c.s w.finished.isEmpty w.current

section Step

variable {c c' : ClientLoop} {i : Input} {tr es : List ClientEvent} {w : Rounds}

/-- A release of the socket leaves the handlers alone. -/
theorem releaseSock_handlers {client client' : Client} {freed : Bool}
    (h : client.releaseSock = some (client', freed)) : client'.handlers = client.handlers := by
  unfold Client.releaseSock at h
  split at h <;> cases h
  rfl

/-- The value `0` of `s` shows at the exit test that there was no iteration before. -/
theorem kept_of_leftover {first : Bool} {s : SizeT} (h : first = decide (s = 0)) : decide (s ≠ 0) = !first := by
  rw [h, decide_not]

/-- The loop is left. -/
theorem ExitInv.leave (hi : ExitInv c w) (hpc : c.pc = .releaseSock) (hset : c'.client.handlers.dataHandler = true)
    (hpc' : c'.pc = .didDisconnect) : ExitInv c' (w.note .leave) := by
  have hcur := hi.current
  rw [hpc] at hcur
  obtain ⟨r, hr, hout⟩ := hcur
  refine ⟨hset, ?_, ?_⟩
  · simp only [Rounds.note, hr, Option.map_some, Option.toList_some]
    exact hi.finished.concat hout
  · rw [hpc']
    rfl

/-- Where no iteration is under way there is nothing to leave. -/
theorem note_leave_of_none (h : w.current = none) : w.note .leave = w := by
  cases w
  cases h
  simp [Rounds.note]

/-- An iteration begins. -/
theorem ExitInv.start (hi : ExitInv c w) (hpc : c.pc = .clear) (hset : c'.client.handlers.dataHandler = true)
    (hpc' : c'.pc = .branch) (hs : c'.s = c.s) : ExitInv c' (w.note .start) := by
  have hcur := hi.current
  rw [hpc] at hcur
  rcases hcur with ⟨hnone, hfirst, hz⟩ | ⟨hz, r, hr, hout⟩
  · simp only [Rounds.note, hnone, Option.map_none, Option.toList_none, List.append_nil]
    refine ⟨hset, hi.finished, ?_⟩
    rw [hpc', hs]
    exact ⟨rfl, by simp [hfirst, hz]⟩
  · simp only [Rounds.note, hr, Option.map_some, Option.toList_some]
    refine ⟨hset, hi.finished.concat hout, ?_⟩
    rw [hpc', hs]
    exact ⟨rfl, by rw [decide_eq_false hz]; simp⟩

/-- **The invariant survives every move.** -/
theorem exitInv_move (hm : ClientMove c i c' es) (hi : ExitInv c w) :
    ExitInv c' ((es.filterMap ClientEvent.round).foldl Rounds.note w) := by
  have hset := hi.handled
  have hfin := hi.finished
  have hat {pc : ClientPc} (hpc : c.pc = pc) : pc.RoundIs c.s w.finished.isEmpty w.current :=
    hpc ▸ hi.current
  have hquiet {e : ClientEvent} (h : e.round = none) (isSet : Bool) :
      (callClientIf isSet e).filterMap ClientEvent.round = [] :=
    List.filterMap_eq_nil_iff.mpr (forall_mem_callClientIf h isSet)
  cases hm with
  | setStatus hpc =>
      obtain ⟨hnone, hfirst⟩ := hat hpc
      exact ⟨hset, hfin, .inl ⟨hnone, hfirst, rfl⟩⟩
  | clear hpc _ => exact hi.start hpc hset rfl rfl
  -- the switch
  | branchRunning hpc _ => exact ⟨hset, hfin, congrArg (Option.map _) (hat hpc).1⟩
  | branchResuming hpc _ | branchSuspend hpc _ =>
      obtain ⟨hr, hleft⟩ := hat hpc
      exact ⟨hset, hfin, congrArg (Option.map _) hr, hleft⟩
  | branchDefault hpc hd hs =>
      obtain ⟨hr, hleft⟩ := hat hpc
      have hrun : c.client.status ≠ .running := fun h => hd (.inr h)
      refine ⟨hset, hfin, _, congrArg (Option.map _) hr, ?_⟩
      rw [kept_of_leftover hleft]
      exact .passes c.client.status hrun hs
  -- the running branch
  | callRecv hpc =>
      have hcur := hat hpc
      exact ⟨hset, hfin, hcur⟩
  | recvFails hpc => exact ⟨hset, hfin, _, congrArg (Option.map _) (hat hpc), .recvFails⟩
  | recv hpc bs _ => exact ⟨hset, hfin, bs, congrArg (Option.map _) (hat hpc)⟩
  | handle hpc ret buf _ _ =>
      rcases hpc with hpc | hpc
      · obtain ⟨bs, hr⟩ := hat hpc
        exact ⟨hset, hfin, _, congrArg (Option.map _) hr, .answered bs ret⟩
      · obtain ⟨bs, st, hne, hst, hr⟩ := hat hpc
        exact ⟨hset, hfin, _, congrArg (Option.map _) hr, .delivered bs hne st hst ret⟩
  | handleNull _ hnull =>
      rw [hset] at hnull
      cases hnull
  -- the resuming branch
  | setRunning hpc =>
      have hcur := hat hpc
      exact ⟨hset, hfin, hcur⟩
  | didResume hpc =>
      obtain ⟨hr, hleft⟩ := hat hpc
      rw [hquiet rfl]
      refine ⟨hset, hfin, _, hr, ?_⟩
      rw [kept_of_leftover hleft]
      exact .passes .resuming (by simp) (by simp)
  -- the suspend branch
  | willSuspend hpc =>
      have hcur := hat hpc
      rw [hquiet rfl]
      exact ⟨hset, hfin, hcur⟩
  | callRecvSuspended hpc =>
      have hcur := hat hpc
      exact ⟨hset, hfin, hcur⟩
  | recvSuspendedFails hpc =>
      exact ⟨hset, hfin, _, congrArg (Option.map _) (hat hpc).1, .closed none (.inl rfl)⟩
  | recvSuspendedEmpty hpc =>
      exact ⟨hset, hfin, _, congrArg (Option.map _) (hat hpc).1, .closed (some []) (.inr rfl)⟩
  | recvSuspended hpc bs _ hne =>
      obtain ⟨hr, hleft⟩ := hat hpc
      exact ⟨hset, hfin, bs, hne, congrArg (Option.map _) hr, hleft⟩
  | rereadEnds hpc hs =>
      obtain ⟨bs, _, hr, _⟩ := hat hpc
      exact ⟨hset, hfin, _, congrArg (Option.map _) hr, .ended bs _ hs⟩
  | rereadDelivers hpc hs =>
      obtain ⟨bs, hne, hr, _⟩ := hat hpc
      exact ⟨hset, hfin, bs, _, hne, hs, congrArg (Option.map _) hr⟩
  | rereadSkips hpc he hd =>
      obtain ⟨bs, hne, hr, hleft⟩ := hat hpc
      refine ⟨hset, hfin, _, congrArg (Option.map _) hr, ?_⟩
      rw [kept_of_leftover hleft]
      exact .skipped bs hne _ he hd
  -- the exit test
  | testKeeps hpc hs =>
      obtain ⟨r, hr, hout⟩ := hat hpc
      rw [decide_eq_true hs] at hout
      exact ⟨hset, hfin, .inr ⟨hs, r, hr, hout⟩⟩
  | testEnds hpc hs =>
      obtain ⟨r, hr, hout⟩ := hat hpc
      rw [decide_eq_false (not_not.mpr hs)] at hout
      exact ⟨hset, hfin, r, hr, hout⟩
  -- behind the loop
  | releaseSock hpc client freed hr => exact hi.leave hpc (releaseSock_handlers hr ▸ hset) rfl
  | didDisconnect hpc =>
      have hcur := hat hpc
      rw [hquiet rfl]
      exact ⟨hset, hfin, hcur⟩
  | releaseClient hpc =>
      have hcur := hat hpc
      cases hfreed : (sxRelease c.client.obj).2 <;> exact ⟨hset, hfin, hcur⟩
  | freeClient hpc client freed hr =>
      have hnone : w.current = none := hat hpc
      have hkeep : ([ClientEvent.releaseSock freed, .freeClient].filterMap ClientEvent.round).foldl Rounds.note w =
          w := note_leave_of_none hnone
      rw [hkeep]
      exact ⟨releaseSock_handlers hr ▸ hset, hfin, hnone⟩

/-- The doing of another party means nothing for an iteration. -/
theorem ClientEvent.round_of_fromOther {e : ClientEvent} (h : e.FromOther = true) : e.round = none := by
  cases e <;> first | rfl | cases h

/-- The iterations of a client with its data handler set. -/
theorem exitInv_run {connected : Bool} {client : Client} {err : SXError} {c₀ : ClientLoop} {acts : List ClientAct}
    (hset : client.handlers.dataHandler = true) (hstart : sxStartClient connected client = some (err, some c₀))
    (hrun : Machine.run clientSysStep c₀ acts = some (c, tr)) : ExitInv c (rounds ClientEvent.round tr) := by
  apply client_run_invariant (I := fun c tr => ExitInv c (rounds ClientEvent.round tr)) ?_ ?_ hstart ?_ hrun
  · intro c i c' tr es hi hm
    rw [rounds_append]
    exact exitInv_move hm hi
  · intro c tr st e hi he
    rw [rounds_pass tr (List.forall_mem_singleton.mpr (e.round_of_fromOther he))]
    exact ⟨hi.handled, hi.finished, hi.current⟩
  · exact ⟨hset, Machine.eachEvent_nil _, rfl, rfl⟩

end Step

/-! ## Results -/

/-- **The loop of a client ends for the right reasons, where it does.** In every run of the loop that
    `SXStartClient` dispatched for a client with its data handler set, whatever other parties do to its status: the
    finished iterations all follow the rule iff all of them are such that the loop agrees with it. -/
theorem client_exit_iff {connected : Bool} {client : Client} {err : SXError} {c₀ c : ClientLoop}
    {acts : List ClientAct} {tr : List ClientEvent} (hset : client.handlers.dataHandler = true)
    (hstart : sxStartClient connected client = some (err, some c₀))
    (hrun : Machine.run clientSysStep c₀ acts = some (c, tr)) :
    (∀ r ∈ (rounds ClientEvent.round tr).finished, r.EndsRightly) ↔
      Machine.EachEvent (fun before r => r.ClientAgrees before.isEmpty) (rounds ClientEvent.round tr).finished := by
  have hfin := (exitInv_run hset hstart hrun).finished
  rw [← Machine.eachEvent_iff_forall]
  apply Machine.eachEvent_congr
  intro before r after heq
  exact (hfin before r after heq).ends_iff

/-- A client that gets two messages, the second around a suspension, and ends with the answer to it. -/
theorem client_exit_iff_lastMessage :
    ∃ c tr, sxStartClient true listeningClient = some (sxSuccess, some listening) ∧
      Machine.run clientSysStep listening (firstMessage [5] 1 ++ lastMessage 0) = some (c, tr) ∧
      ∀ r ∈ (rounds ClientEvent.round tr).finished, r.EndsRightly := by
  have hfin : (Machine.run clientSysStep listening (firstMessage [5] 1 ++ lastMessage 0)).map
      (fun p => (rounds ClientEvent.round p.2).finished) =
      some [⟨some .running, some (some [5]), none, some 1, true⟩,
        ⟨some .suspend, some (some [6]), some .resuming, some 0, false⟩] := by decide +kernel
  obtain ⟨⟨c, tr⟩, hrun, hfin⟩ := Option.map_eq_some_iff.mp hfin
  have hstart : sxStartClient true listeningClient = some (sxSuccess, some listening) := rfl
  refine ⟨c, tr, hstart, hrun, (client_exit_iff rfl hstart hrun).mpr ?_⟩
  dsimp only at hfin
  rw [hfin]
  decide

/-- An iteration of a run, found among the finished ones. -/
theorem round_of_run {acts : List ClientAct} {fin : List Round} {r : Round}
    (h : (Machine.run clientSysStep listening acts).map (fun p => (rounds ClientEvent.round p.2).finished) =
      some fin) (hr : r ∈ fin) :
    ∃ c tr, Machine.run clientSysStep listening acts = some (c, tr) ∧
      r ∈ (rounds ClientEvent.round tr).finished := by
  obtain ⟨⟨c, tr⟩, hrun, hfin⟩ := Option.map_eq_some_iff.mp h
  refine ⟨c, tr, hrun, ?_⟩
  dsimp only at hfin
  rwa [hfin]

/-- A message that finds the client suspended before its first iteration and still so after the `recv`. -/
def suspendedFirst : List ClientAct :=
  [.loop .tick, .suspend] ++ ticks 4 ++ [.loop (.recv (some [5]))] ++ ticks 3

/-- A client told to terminate after its first message. -/
def toldToTerminate : List ClientAct := firstMessage [5] 1 ++ [.setStatus .shouldTerminate] ++ ticks 4

/-- **The wrong reasons.** A client suspended before its first message is disconnected by that message; a client
    told to terminate goes on to its next iteration; and so does one whose peer has closed, if its handler does
    not answer `0`. -/
theorem client_exit_defects :
    sxStartClient true listeningClient = some (sxSuccess, some listening) ∧
    (∃ c tr r, Machine.run clientSysStep listening suspendedFirst = some (c, tr) ∧
      r ∈ (rounds ClientEvent.round tr).finished ∧ r.recv = some (some [5]) ∧ r.kept = false ∧
        ¬ r.EndsRightly) ∧
    (∃ c tr r, Machine.run clientSysStep listening toldToTerminate = some (c, tr) ∧
      r ∈ (rounds ClientEvent.round tr).finished ∧ r.status = some .shouldTerminate ∧ r.kept = true ∧
        ¬ r.EndsRightly) ∧
    ∃ c tr r, Machine.run clientSysStep listening (firstMessage [] 1 ++ ticks 1) = some (c, tr) ∧
      r ∈ (rounds ClientEvent.round tr).finished ∧ r.recv = some (some []) ∧ r.kept = true ∧
        ¬ r.EndsRightly := by
  have hsuspended : (Machine.run clientSysStep listening suspendedFirst).map
      (fun p => (rounds ClientEvent.round p.2).finished) =
      some [⟨some .suspend, some (some [5]), some .suspend, none, false⟩] := by decide +kernel
  have hterminate : (Machine.run clientSysStep listening toldToTerminate).map
      (fun p => (rounds ClientEvent.round p.2).finished) =
      some [⟨some .running, some (some [5]), none, some 1, true⟩,
        ⟨some .shouldTerminate, none, none, none, true⟩] := by decide +kernel
  have hclosed : (Machine.run clientSysStep listening (firstMessage [] 1 ++ ticks 1)).map
      (fun p => (rounds ClientEvent.round p.2).finished) =
      some [⟨some .running, some (some []), none, some 1, true⟩] := by decide +kernel
  obtain ⟨c₁, tr₁, hrun₁, hmem₁⟩ := round_of_run hsuspended (List.mem_singleton_self _)
  obtain ⟨c₂, tr₂, hrun₂, hmem₂⟩ := round_of_run hterminate (List.mem_cons_of_mem _ (List.mem_singleton_self _))
  obtain ⟨c₃, tr₃, hrun₃, hmem₃⟩ := round_of_run hclosed (List.mem_singleton_self _)
  refine ⟨rfl, ⟨c₁, tr₁, _, hrun₁, hmem₁, rfl, rfl, ?_⟩, ⟨c₂, tr₂, _, hrun₂, hmem₂, rfl, rfl, ?_⟩,
    ⟨c₃, tr₃, _, hrun₃, hmem₃, rfl, rfl, ?_⟩⟩ <;> decide

end SpartanX
