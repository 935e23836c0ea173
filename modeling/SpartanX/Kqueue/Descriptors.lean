import SpartanX.Kqueue.Move
import SpartanX.Lib.Multiplexer
import SpartanX.Teardown

/-!
# `Kqueue.Descriptors` — the descriptors and the queues of the event loop

`SXServerStart_kqueue` works batches of events off while it accepts and closes connections, and takes the queue of a
connection from the `udata` of its event. What it does to its descriptors are the moves of a `Multiplexer.Table`
(`kqStep_fds`), so every descriptor it accepted is in use or has been closed, once (`descriptors_balance`), and an
event that is left in a batch is of the listening socket or of a connection that is still registered
(`events_find_their_queue`). The queue objects are another matter: their header is never initialised, and no
`SXRelease(queue)` deallocates one.

## Contents
- **Descriptors.** `acceptedFds`, `closedFds`, `Kq.fds`.
- **What a step does to them.** `HandlingMove.fd`, `KqLoopMove.fds`, `kqStep_fds`.
- **The queue objects.** `Kq.Uncounted`, `kqStep_queues`.
- **Results.** `descriptors_balance`, `events_find_their_queue`.
-/

namespace SpartanX

open CInt

/-! ## Descriptors -/

/-- The descriptor a step accepts. -/
def KqAct.accepted : KqAct → Option IntT
  | .loop (.accept fd) => fd
  | _                  => none

/-- The descriptors that `accept` has returned. -/
def acceptedFds (acts : List KqAct) : List IntT := acts.filterMap KqAct.accepted

/-- The descriptor an event closes. -/
def SysEvent.closed : SysEvent → Option IntT
  | .handling (.close fd) => some fd
  | _                     => none

/-- The descriptors that the event loop has closed. -/
def closedFds (tr : List SysEvent) : List IntT := tr.filterMap SysEvent.closed

/-- The statements of a handling before its `close` and those after a connection that is kept. -/
def HandlingPc.Open : HandlingPc → Bool
  | .releaseQueue | .didDisconnect | .decCount | .closed => false
  | _ => true

/-- The descriptors of the event loop. -/
def Kq.fds (s : Kq) : Multiplexer.Table IntT where
  listening := s.listenFd
  waiting   := s.conns.map (·.sockfd)
  serving   := if s.pc = .handling ∧ s.cur.pc.Open = true then some s.cur.sockfd else none
  fresh     := if s.pc = .addConn then some s.newFd else none
  batch     := s.batch

/-- The descriptors the loop has accepted and not closed. -/
def Kq.openFds (s : Kq) : List IntT := s.fds.held

theorem closedFds_append (tr es : List SysEvent) : closedFds (tr ++ es) = closedFds tr ++ closedFds es :=
  List.filterMap_append

theorem acceptedFds_concat (acts : List KqAct) (a : KqAct) :
    acceptedFds (acts ++ [a]) = acceptedFds acts ++ a.accepted.toList := by
  unfold acceptedFds
  rw [List.filterMap_append]
  cases h : a.accepted <;> simp [h]

/-! ## What a step does to them -/

/-- Before the listening socket is registered there are no connections and no batch. -/
def Kq.Quiet (s : Kq) : Prop := s.pc.Starting = true → s.conns = [] ∧ s.batch = []

@[simp] theorem closedFds_nil : closedFds [] = [] := rfl

@[simp] theorem closedFds_access : closedFds [.access] = [] := rfl

@[simp] theorem closedFds_dispatched : closedFds [.dispatched] = [] := rfl

section Step

variable {calls : SocketCalls} {s s' : Kq} {es : List SysEvent}

/-- Events of which none closes a descriptor. -/
theorem closedFds_none (h : ∀ e ∈ es, e.closed = none) : closedFds es = [] := List.filterMap_eq_nil_iff.mpr h

/-- The events of a handling. -/
theorem closedFds_handling {ces : List ConnEvent} (h : ∀ e ∈ ces, ∀ fd, e ≠ .close fd) :
    closedFds (ces.map .handling) = [] := by
  apply closedFds_none
  intro e he
  obtain ⟨ce, hce, rfl⟩ := List.mem_map.mp he
  cases ce with
  | close fd => exact absurd rfl (h _ hce fd)
  | _ => rfl

/-- A move of a handling keeps the descriptor, and closes it in one statement. -/
theorem HandlingMove.fd {srv : Server} {h h' : Handling} {ces : List ConnEvent} (hm : HandlingMove srv h h' ces) :
    h'.sockfd = h.sockfd ∧
      ((h.pc.Open = true ∧ h'.pc = .releaseQueue ∧ ces = [.close h.sockfd]) ∨
        (h'.pc.Open = h.pc.Open ∧ ∀ e ∈ ces, ∀ fd, e ≠ .close fd)) := by
  have hcall (isSet : Bool) {e : ConnEvent} (he : ∀ fd, e ≠ .close fd) :
      ∀ e' ∈ .accessServer :: callIf isSet e, ∀ fd, e' ≠ .close fd := by
    intro e' he'
    rcases List.mem_cons.mp he' with rfl | he'
    · simp
    · exact forall_mem_callIf (P := fun e => ∀ fd, e ≠ .close fd) he isSet e' he'
  cases hm with
  | close hpc => exact ⟨rfl, .inl ⟨by rw [hpc]; rfl, rfl, rfl⟩⟩
  | didResume hpc | willKill hpc | didDisconnect hpc =>
      exact ⟨rfl, .inr ⟨by rw [hpc]; rfl, hcall _ (by simp)⟩⟩
  | willSuspend hpc =>
      refine ⟨rfl, .inr ⟨by rw [hpc]; rfl, ?_⟩⟩
      split
      · simp
      · exact hcall _ (by simp)
  | _ hpc => exact ⟨rfl, .inr ⟨by rw [hpc]; rfl, by simp⟩⟩

/-- A step that leaves the descriptors alone. -/
theorem fds_stay (hsame : s'.listenFd = s.listenFd ∧ s'.conns = s.conns ∧ s'.batch = s.batch)
    (hpc : s.pc ≠ .handling ∧ s.pc ≠ .addConn) (hpc' : s'.pc ≠ .handling ∧ s'.pc ≠ .addConn) :
    Multiplexer.Move s.fds s'.fds [] [] := by
  obtain ⟨hlisten, hconns, hbatch⟩ := hsame
  have heq : s'.fds = s.fds := by simp [Kq.fds, hpc, hpc', hlisten, hconns, hbatch]
  rw [heq]
  exact .stay

/-- The events of a statement that moves on. -/
theorem closedFds_go (hes : es = [.access] ∨ es = []) : closedFds es = [] := by
  rcases hes with rfl | rfl <;> rfl

theorem accepted_none {i : KqInput} (hi : ∀ fd, i ≠ .accept (some fd)) : (KqAct.loop i).accepted = none := by
  cases i with
  | accept fd =>
      cases fd with
      | none => rfl
      | some fd => exact absurd rfl (hi fd)
  | _ => rfl

/-- **A move of the loop is a move of its descriptors.** -/
theorem KqLoopMove.fds {i : KqInput} (hm : KqLoopMove s i s' es) (hquiet : s.Quiet) :
    Multiplexer.Move s.fds s'.fds (KqAct.loop i).accepted.toList (closedFds es) := by
  cases hm with
  | start i hpc pc hpc' st es hes hi =>
      rw [closedFds_go hes, accepted_none hi]
      exact fds_stay ⟨rfl, rfl, rfl⟩ (KqPc.Starting.away hpc) (KqPc.Starting.away hpc')
  | fails hpc => exact fds_stay ⟨rfl, rfl, rfl⟩ (by simp [hpc]) (by simp)
  | register hpc sock _ =>
      obtain ⟨hconns, hbatch⟩ := hquiet (by rw [hpc]; rfl)
      have hheld : s.fds.held = [] := by simp [Kq.fds, Multiplexer.Table.held, hpc, hconns]
      have hm := Multiplexer.Move.listen (t := s.fds) sock.sockfd hheld hbatch
      simpa [Kq.fds, KqAct.accepted, hpc] using hm
  | go i hpc pc hpc' _ es hes hi =>
      rw [closedFds_go hes, accepted_none hi]
      exact fds_stay ⟨rfl, rfl, rfl⟩ (KqPc.Passing.away (.inl hpc)).1 (KqPc.Passing.away hpc').1
  | report hpc batch hok =>
      simp only [Kq.keventOk, Kq.registeredFds, Bool.and_eq_true, decide_eq_true_eq, List.all_eq_true,
        List.contains_iff_mem, List.mem_cons] at hok
      have hm := Multiplexer.Move.report (t := s.fds) batch hok.1.1 hok.1.2
      simpa [Kq.fds, KqAct.accepted, hpc] using hm
  | skip hpc ident batch hbatch =>
      have hm := Multiplexer.Move.skip (t := s.fds) ident batch hbatch
      simpa [Kq.fds, KqAct.accepted, hpc] using hm
  | begin hpc ident batch hbatch r hr hfd =>
      have hwaiting : s.fds.waiting.Perm (ident :: (s.conns.erase r).map (·.sockfd)) := by
        have hperm := (List.perm_cons_erase hr).map (·.sockfd)
        rwa [List.map_cons, hfd] at hperm
      have hopen : HandlingPc.clear.Open = true := rfl
      have hm := Multiplexer.Move.serve ident batch _ (by simp [Kq.fds, hpc]) hbatch hwaiting
      simpa [Kq.fds, KqAct.accepted, hpc, hfd, hopen] using hm
  | accept hpc fd hfresh =>
      simp only [Kq.registeredFds, List.mem_cons, not_or] at hfresh
      have hm := Multiplexer.Move.accept (t := s.fds) fd (by simp [Kq.fds, hpc]) (by simp [Kq.fds, hpc])
        hfresh.1 hfresh.2
      simpa [Kq.fds, KqAct.accepted, hpc] using hm
  | add hpc =>
      have hm := Multiplexer.Move.register (t := s.fds) s.newFd (by simp [Kq.fds, hpc])
      simpa [Kq.fds, KqAct.accepted, hpc] using hm
  | keep hpc i h ces hm hkept =>
      obtain ⟨hfd, ⟨_, hpc', _⟩ | ⟨hopen, hes⟩⟩ := hm.fd
      · rw [hkept] at hpc'
        cases hpc'
      · have hbefore : s.cur.pc.Open = true := by rw [← hopen, hkept]; rfl
        rw [closedFds_handling hes]
        have hm := Multiplexer.Move.keep (t := s.fds) s.cur.sockfd (by simp [Kq.fds, hpc, hbefore])
        simpa [Kq.fds, KqAct.accepted, hpc, hfd] using hm
  | close hpc i h ces hm hclosed =>
      obtain ⟨hfd, ⟨_, hpc', _⟩ | ⟨hopen, hes⟩⟩ := hm.fd
      · rw [hclosed] at hpc'
        cases hpc'
      · have hshut : s.cur.pc.Open = false := by rw [← hopen, hclosed]; rfl
        rw [closedFds_handling hes]
        have hm := Multiplexer.Move.stay (t := s.fds)
        simpa [Kq.fds, KqAct.accepted, hpc, hshut] using hm
  | handle hpc i h ces hm =>
      obtain ⟨hfd, ⟨hopen, hpc', rfl⟩ | ⟨hopen, hes⟩⟩ := hm.fd
      · have hshut : h.pc.Open = false := by rw [hpc']; rfl
        have hm := Multiplexer.Move.close (t := s.fds) s.cur.sockfd (by simp [Kq.fds, hpc, hopen])
        show Multiplexer.Move s.fds _ [] [s.cur.sockfd]
        simpa [Kq.fds, hpc, hshut] using hm
      · rw [closedFds_handling hes]
        have hm := Multiplexer.Move.stay (t := s.fds)
        simpa [Kq.fds, KqAct.accepted, hpc, hfd, hopen] using hm

/-- The loop gets its connections and its batches behind the registration. -/
theorem KqLoopMove.quiet {i : KqInput} (hm : KqLoopMove s i s' es) (hquiet : s.Quiet) : s'.Quiet := by
  cases hm with
  | start _ hpc => exact fun _ => hquiet hpc
  | go _ _ pc hpc' =>
      intro h
      rw [(KqPc.Passing.away hpc').2] at h
      cases h
  | handle hpc =>
      intro h
      rw [show s.pc = .handling from hpc] at h
      cases h
  | _ => exact fun h => by cases h

/-- A step of another party is none. -/
theorem KqAside.fds_eq (h : KqAside s s' es) : s'.fds = s.fds ∧ closedFds es = [] := by
  obtain ⟨st, hcur⟩ := h.cur
  refine ⟨?_, closedFds_none ?_⟩
  · simp [Kq.fds, h.pc, h.listenFd, h.newFd, h.batch, h.fds, hcur]
  · intro e he
    rcases h.events e he with rfl | ⟨ce, rfl, hce⟩
    · rfl
    · cases ce <;> first | rfl | cases hce

/-- **A step of a started server is a move of its descriptors.** -/
theorem kqStep_fds {a : KqAct} (hquiet : s.Quiet) (hs : kqStep calls s a = some (s', es)) :
    Multiplexer.Move s.fds s'.fds a.accepted.toList (closedFds es) ∧ s'.Quiet := by
  by_cases ha : ∃ i, a = .loop i
  · obtain ⟨i, rfl⟩ := ha
    have hm := kqLoopStep_loopMove hs
    exact ⟨hm.fds hquiet, hm.quiet hquiet⟩
  · have hother : ∀ i, a ≠ .loop i := fun i h => ha ⟨i, h⟩
    have haside := kqStep_aside hother hs
    obtain ⟨hfds, hes⟩ := haside.fds_eq
    have haccepted : a.accepted = none := by
      cases a with
      | loop i => exact absurd rfl (hother i)
      | _ => rfl
    rw [hfds, hes, haccepted]
    refine ⟨.stay, fun h => ?_⟩
    obtain ⟨hconns, hbatch⟩ := hquiet (haside.pc ▸ h)
    refine ⟨?_, haside.batch.trans hbatch⟩
    rw [← List.map_eq_nil_iff (f := (·.sockfd)), haside.fds, hconns]
    rfl

end Step

/-! ## The listening socket -/

/-- Once it is registered, the descriptor the loop compares the events with is the one of the server's socket. -/
def Kq.Listens (s : Kq) : Prop :=
  s.pc.Starting = true ∨ s.pc = .done ∧ s.batch = [] ∨ s.server.sock.map (·.sockfd) = some s.listenFd

section Listens

variable {calls : SocketCalls} {s s' : Kq} {es : List SysEvent}

/-- A move of the loop. -/
theorem KqLoopMove.listens {i : KqInput} (hm : KqLoopMove s i s' es) (hquiet : s.Quiet) (hi : s.Listens) :
    s'.Listens := by
  -- past the registration the descriptor stays
  have hlater (hstarting : s.pc.Starting = false) (hdone : s.pc ≠ .done) :
      s.server.sock.map (·.sockfd) = some s.listenFd := by
    rcases hi with h | ⟨h, _⟩ | h
    · rw [hstarting] at h
      cases h
    · exact absurd h hdone
    · exact h
  cases hm with
  | start _ _ pc hpc' => exact .inl hpc'
  | fails hpc => exact .inr (.inl ⟨rfl, (hquiet (by rw [hpc]; rfl)).2⟩)
  | register hpc sock hsock => exact .inr (.inr (by rw [hsock]; rfl))
  | go _ hpc =>
      refine .inr (.inr (hlater (KqPc.Passing.away (.inl hpc)).2 ?_))
      intro hdone
      rw [hdone] at hpc
      cases hpc
  | _ hpc => exact .inr (.inr (hlater (by rw [hpc]; rfl) (by simp [hpc])))

/-- A step of a started server that does not deallocate it. -/
theorem kqStep_listens {a : KqAct} (hquiet : s.Quiet) (hi : s.Listens) (hs : kqStep calls s a = some (s', es))
    (hlive : .freed ∉ es) : s'.Listens := by
  by_cases ha : ∃ i, a = .loop i
  · obtain ⟨i, rfl⟩ := ha
    exact (kqLoopStep_loopMove hs).listens hquiet hi
  · have haside := kqStep_aside (fun i h => ha ⟨i, h⟩) hs
    unfold Kq.Listens at hi ⊢
    rwa [haside.pc, haside.batch, haside.listenFd, (kqStep_server hs hlive).2]

end Listens

/-! ## The queue objects -/

/-- The statements of a handling that come after its `SXRelease(queue)`. -/
def HandlingPc.Released : HandlingPc → Bool
  | .didDisconnect | .decCount | .closed => true
  | _ => false

/-- The queues have the zeroed header of their allocation. -/
structure Kq.Uncounted (s : Kq) : Prop where
  conns : ∀ r ∈ s.conns, r.queue.obj.refCount = 0
  cur   : s.pc = .handling → s.cur.pc.Released = false → s.cur.queue.obj.refCount = 0

section Queues

variable {calls : SocketCalls} {s s' : Kq} {es : List SysEvent}

/-- A move of a handling releases such a queue without deallocating it. -/
theorem HandlingMove.queue {srv : Server} {h h' : Handling} {ces : List ConnEvent} (hm : HandlingMove srv h h' ces)
    (hq : h.pc.Released = false → h.queue.obj.refCount = 0) :
    (h'.pc.Released = false → h'.queue.obj.refCount = 0) ∧ .releaseQueue true ∉ ces := by
  have hcall (isSet : Bool) {e : ConnEvent} (he : e ≠ .releaseQueue true) :
      .releaseQueue true ∉ .accessServer :: callIf isSet e := by
    unfold callIf
    split <;> simp [he.symm]
  cases hm with
  | releaseQueue hpc =>
      refine ⟨nofun, ?_⟩
      rw [sxRelease_zero (hq (by rw [hpc]; rfl))]
      simp
  | didDisconnect hpc => exact ⟨nofun, hcall _ (by simp)⟩
  | decCount hpc => exact ⟨nofun, by simp⟩
  | didResume hpc | willKill hpc => exact ⟨fun _ => hq (by rw [hpc]; rfl), hcall _ (by simp)⟩
  | willSuspend hpc =>
      refine ⟨fun _ => hq (by rw [hpc]; rfl), ?_⟩
      split
      · simp
      · exact hcall _ (by simp)
  | _ hpc => exact ⟨fun _ => hq (by rw [hpc]; rfl), by simp⟩

/-- A move of the loop. -/
theorem KqLoopMove.queues {i : KqInput} (hm : KqLoopMove s i s' es) (hi : s.Uncounted) :
    s'.Uncounted ∧ .handling (.releaseQueue true) ∉ es := by
  have hevents {ces : List ConnEvent} (h : .releaseQueue true ∉ ces) :
      .handling (.releaseQueue true) ∉ ces.map SysEvent.handling := by
    intro hmem
    obtain ⟨e, he, heq⟩ := List.mem_map.mp hmem
    cases heq
    exact h he
  have hconcat {r : Registered} (hr : r.queue.obj.refCount = 0) :
      ∀ r' ∈ s.conns ++ [r], r'.queue.obj.refCount = 0 := by
    intro r' hr'
    rcases List.mem_append.mp hr' with hr' | hr'
    · exact hi.conns r' hr'
    · obtain rfl := List.mem_singleton.mp hr'
      exact hr
  cases hm with
  | start _ _ pc hpc' _ _ hes =>
      refine ⟨⟨hi.conns, fun h => absurd h (KqPc.Starting.away hpc').1⟩, ?_⟩
      rcases hes with rfl | rfl <;> simp
  | go _ _ pc hpc' _ _ hes =>
      refine ⟨⟨hi.conns, fun h => absurd h (KqPc.Passing.away hpc').1.1⟩, ?_⟩
      rcases hes with rfl | rfl <;> simp
  | begin _ _ _ _ r hr => exact ⟨⟨fun r' hr' => hi.conns r' (List.mem_of_mem_erase hr'), fun _ _ => hi.conns r hr⟩,
      by simp⟩
  | add _ => exact ⟨⟨hconcat rfl, nofun⟩, by simp⟩
  | keep hpc _ h ces hm hkept =>
      obtain ⟨hcur, hnone⟩ := hm.queue (hi.cur hpc)
      exact ⟨⟨hconcat (hcur (by rw [hkept]; rfl)), nofun⟩, hevents hnone⟩
  | close hpc _ h ces hm hclosed => exact ⟨⟨hi.conns, nofun⟩, hevents (hm.queue (hi.cur hpc)).2⟩
  | handle hpc _ h ces hm =>
      obtain ⟨hcur, hnone⟩ := hm.queue (hi.cur hpc)
      exact ⟨⟨hi.conns, fun _ => hcur⟩, hevents hnone⟩
  | _ => exact ⟨⟨hi.conns, nofun⟩, by simp⟩

/-- A step of a started server. -/
theorem kqStep_queues {a : KqAct} (hi : s.Uncounted) (hs : kqStep calls s a = some (s', es)) :
    s'.Uncounted ∧ .handling (.releaseQueue true) ∉ es := by
  by_cases ha : ∃ i, a = .loop i
  · obtain ⟨i, rfl⟩ := ha
    exact (kqLoopStep_loopMove hs).queues hi
  · have haside := kqStep_aside (fun i h => ha ⟨i, h⟩) hs
    obtain ⟨st, hcur⟩ := haside.cur
    refine ⟨⟨?_, ?_⟩, ?_⟩
    · intro r hr
      obtain ⟨r₀, hr₀, heq⟩ := haside.queues r hr
      rw [heq]
      exact hi.conns r₀ hr₀
    · rw [haside.pc, hcur]
      exact hi.cur
    · intro hmem
      rcases haside.events _ hmem with h | ⟨ce, h, hce⟩
      · cases h
      · cases h
        cases hce

end Queues

/-! ## Results -/

section Results

variable {calls : SocketCalls} {server : Server} {s₀ s : Kq} {acts : List KqAct} {tr : List SysEvent}

/-- The descriptors of a run, from the state `SXServerStart_kqueue` leaves. -/
theorem fds_run (hstart : sxServerStartKqueue server = some (sxSuccess, some s₀))
    (hrun : Machine.run (kqStep calls) s₀ acts = some (s, tr)) :
    s.Quiet ∧ Multiplexer.Inv s.fds (acceptedFds acts) (closedFds tr) := by
  have h0 : s₀.Quiet ∧ Multiplexer.Inv s₀.fds (acceptedFds []) (closedFds []) := by
    rw [sxServerStartKqueue_spec hstart]
    exact ⟨fun _ => ⟨rfl, rfl⟩, Multiplexer.inv_empty 0⟩
  have hstep (acts₁ : List KqAct) (s₁ : Kq) (tr₁ : List SysEvent) (a : KqAct) (s₂ : Kq) (es : List SysEvent)
      (hi : s₁.Quiet ∧ Multiplexer.Inv s₁.fds (acceptedFds acts₁) (closedFds tr₁))
      (hs : kqStep calls s₁ a = some (s₂, es)) :
      s₂.Quiet ∧ Multiplexer.Inv s₂.fds (acceptedFds (acts₁ ++ [a])) (closedFds (tr₁ ++ es)) := by
    obtain ⟨hm, hquiet⟩ := kqStep_fds hi.1 hs
    rw [acceptedFds_concat, closedFds_append]
    exact ⟨hquiet, hi.2.move hm⟩
  exact Machine.run_history_invariant (I := fun acts s tr =>
    s.Quiet ∧ Multiplexer.Inv s.fds (acceptedFds acts) (closedFds tr)) hstep h0 hrun

/-- **Descriptors come back, queues do not.** In every run of a server started by `SXServerStart_kqueue`: the
    descriptors that `accept` returned are those the loop has closed and those of its open connections, each as
    often as it was returned, and the open ones differ; but no queue object is ever deallocated. -/
theorem descriptors_balance (hstart : sxServerStartKqueue server = some (sxSuccess, some s₀))
    (hrun : Machine.run (kqStep calls) s₀ acts = some (s, tr)) :
    (acceptedFds acts).Perm (closedFds tr ++ s.openFds) ∧ s.openFds.Nodup ∧
      .handling (.releaseQueue true) ∉ tr := by
  have hi := (fds_run hstart hrun).2
  have h0 : s₀.Uncounted := by
    rw [sxServerStartKqueue_spec hstart]
    exact ⟨fun _ h => (List.not_mem_nil h).elim, nofun⟩
  have hqueues : s.Uncounted ∧ .handling (.releaseQueue true) ∉ [] ++ tr := by
    refine Machine.run_invariant (I := fun s tr => s.Uncounted ∧ .handling (.releaseQueue true) ∉ tr) ?_
      ⟨h0, List.not_mem_nil⟩ hrun
    intro s₁ tr₁ a s₂ es hi hs
    obtain ⟨hcounts, hes⟩ := kqStep_queues hi.1 hs
    exact ⟨hcounts, fun h => (List.mem_append.mp h).elim hi.2 hes⟩
  exact ⟨hi.ledger, (List.nodup_cons.mp hi.distinct).2, hqueues.2⟩

/-- The listening socket of a run whose server is there. -/
theorem listens_run (hstart : sxServerStartKqueue server = some (sxSuccess, some s₀))
    (hrun : Machine.run (kqStep calls) s₀ acts = some (s, tr)) (hlive : .freed ∉ tr) : s.Listens := by
  have h0 : s₀.Quiet ∧ (.freed ∉ ([] : List SysEvent) → s₀.Listens) := by
    rw [sxServerStartKqueue_spec hstart]
    exact ⟨fun _ => ⟨rfl, rfl⟩, fun _ => .inl rfl⟩
  have hstep (s₁ : Kq) (tr₁ : List SysEvent) (a : KqAct) (s₂ : Kq) (es : List SysEvent)
      (hi : s₁.Quiet ∧ (.freed ∉ tr₁ → s₁.Listens)) (hs : kqStep calls s₁ a = some (s₂, es)) :
      s₂.Quiet ∧ (.freed ∉ tr₁ ++ es → s₂.Listens) := by
    refine ⟨(kqStep_fds hi.1 hs).2, fun hnone => ?_⟩
    have hnone := not_or.mp (mt List.mem_append.mpr hnone)
    exact kqStep_listens hi.1 (hi.2 hnone.1) hs hnone.2
  have hi := Machine.run_invariant (I := fun s tr => s.Quiet ∧ (.freed ∉ tr → s.Listens)) hstep h0 hrun
  exact hi.2 hlive

/-- Where the loop takes its events, the listening socket is registered. -/
theorem Kq.Listens.sock (h : s.Listens) (hpc : s.pc = .next) : s.server.sock.map (·.sockfd) = some s.listenFd := by
  rcases h with h | ⟨h, _⟩ | h
  · rw [hpc] at h
    cases h
  · rw [hpc] at h
    cases h
  · exact h

/-- And where there is a batch. -/
theorem Kq.Listens.sock_of_mem {ident : IntT} (h : s.Listens) (hquiet : s.Quiet) (hmem : ident ∈ s.batch) :
    s.server.sock.map (·.sockfd) = some s.listenFd := by
  rcases h with h | ⟨_, h⟩ | h
  · rw [(hquiet h).2] at hmem
    cases hmem
  · rw [h] at hmem
    cases hmem
  · exact h

/-- The loop can take the next event, if the batch names no descriptor but those the loop waits for. -/
theorem kqNext_isSome {accepted closed : List IntT} (hi : Multiplexer.Inv s.fds accepted closed)
    (hlisten : s.server.sock.map (·.sockfd) = some s.listenFd) (junk : SizeT) (suspended : Bool) :
    (kqNext s junk suspended).isSome = true := by
  obtain ⟨sock, hsock, hfd⟩ := Option.map_eq_some_iff.mp hlisten
  unfold kqNext
  cases hbatch : s.batch with
  | nil => rfl
  | cons ident batch =>
      simp only [hsock]
      by_cases hident : ident = sock.sockfd
      · rw [if_pos hident]
        rfl
      · rw [if_neg hident]
        have hwaiting : ident ∈ s.conns.map (·.sockfd) :=
          (hi.known ident (by simp [Kq.fds, hbatch])).resolve_left fun h => hident (h.trans hfd.symm)
        obtain ⟨r, hr, hrfd⟩ := List.mem_map.mp hwaiting
        cases hfind : s.conns.find? (·.sockfd == ident) with
        | none =>
            have hne := List.find?_eq_none.mp hfind r hr
            rw [beq_iff_eq] at hne
            exact absurd hrfd hne
        | some r' => rfl

/-- **The events find their queues.** In every run of a server started by `SXServerStart_kqueue`, until the server is
    deallocated: whatever is left of a batch is of the listening socket or of exactly one registered connection, so
    the loop can always take the next event; and the connection whose event it is handling has no other event in
    the batch. -/
theorem events_find_their_queue (hstart : sxServerStartKqueue server = some (sxSuccess, some s₀))
    (hrun : Machine.run (kqStep calls) s₀ acts = some (s, tr)) (hlive : .freed ∉ tr) :
    (∀ ident ∈ s.batch, s.server.sock.map (·.sockfd) = some ident ∨ ∃! r, r ∈ s.conns ∧ r.sockfd = ident) ∧
      (s.pc = .next → ∀ junk suspended, (kqNext s junk suspended).isSome = true) ∧
      (s.pc = .handling → s.cur.pc.Open = true → s.cur.sockfd ∉ s.batch) := by
  obtain ⟨hquiet, hi⟩ := fds_run hstart hrun
  have hlistens := listens_run hstart hrun hlive
  have hnodup : (s.conns.map (·.sockfd)).Nodup :=
    (List.nodup_append.mp (List.nodup_cons.mp hi.distinct).2).1
  refine ⟨?_, ?_, ?_⟩
  · intro ident hmem
    rcases hi.known ident hmem with rfl | hwaiting
    · exact .inl (hlistens.sock_of_mem hquiet hmem)
    · obtain ⟨r, hr, hfd⟩ := List.mem_map.mp hwaiting
      refine .inr ⟨r, ⟨hr, hfd⟩, ?_⟩
      rintro r' ⟨hr', hfd'⟩
      exact List.inj_on_of_nodup_map hnodup hr' hr (hfd'.trans hfd.symm)
  · exact fun hpc junk suspended => kqNext_isSome hi (hlistens.sock hpc) junk suspended
  · intro hpc hopen
    exact (hi.serving (by simp [Kq.fds, hpc, hopen])).1

end Results

/-- A server whose loop accepts a connection, takes one message of it and then, in one batch, its next connection and
    the end of the first. -/
def twoGuests : List KqAct :=
  List.replicate 3 (KqAct.loop .tick) ++ [KqAct.loop (.kqueue true)] ++ List.replicate 4 (KqAct.loop .tick) ++
  [KqAct.loop (.kevent (some [3])), .loop (.next 0 false), .loop .tick, .loop .tick, .loop (.accept (some 5)),
    .loop .tick, .loop (.next 0 false), .loop .tick, .loop .tick] ++
  [KqAct.loop (.kevent (some [5, 3])), .loop (.next 7 true)] ++
  List.replicate 4 (KqAct.loop (.handling .tick)) ++ [KqAct.loop (.handling (.recv none))] ++
  [KqAct.loop (.handling .tick)]

/-- A server for two connections. -/
def twoGuestServer : Server :=
  { sock := some { sockfd := 3 }, dataSize := 4, maxGuest := 2, handlers := { dataHandler := true } }

/-- The first connection is closed and its queue not deallocated; the second one is still to be accepted. -/
theorem descriptors_balance_twoGuests :
    ∃ s₀ s tr, sxServerStartKqueue twoGuestServer = some (sxSuccess, some s₀) ∧
      Machine.run (kqStep {}) s₀ twoGuests = some (s, tr) ∧ closedFds tr = [5] ∧ s.openFds = [] ∧
      (acceptedFds twoGuests).Perm (closedFds tr ++ s.openFds) ∧ s.openFds.Nodup ∧
      .handling (.releaseQueue true) ∉ tr := by
  have hstart : sxServerStartKqueue twoGuestServer = some (sxSuccess, some _) := rfl
  obtain ⟨s, tr, hrun, hclosed, hopen⟩ : ∃ s tr, Machine.run (kqStep {})
      { server := { twoGuestServer with obj := sxRetain twoGuestServer.obj } } twoGuests = some (s, tr) ∧
      closedFds tr = [5] ∧ s.openFds = [] := ⟨_, _, rfl, rfl, rfl⟩
  exact ⟨_, s, tr, hstart, hrun, hclosed, hopen, descriptors_balance hstart hrun⟩

/-- The event of the listening socket is left in the batch. -/
theorem events_find_their_queue_twoGuests :
    ∃ s₀ s tr, sxServerStartKqueue twoGuestServer = some (sxSuccess, some s₀) ∧
      Machine.run (kqStep {}) s₀ twoGuests = some (s, tr) ∧ s.batch = [3] ∧
      ∀ ident ∈ s.batch, s.server.sock.map (·.sockfd) = some ident ∨ ∃! r, r ∈ s.conns ∧ r.sockfd = ident := by
  have hstart : sxServerStartKqueue twoGuestServer = some (sxSuccess, some _) := rfl
  obtain ⟨s, tr, hrun, hbatch, hlive⟩ : ∃ s tr, Machine.run (kqStep {})
      { server := { twoGuestServer with obj := sxRetain twoGuestServer.obj } } twoGuests = some (s, tr) ∧
      s.batch = [3] ∧ .freed ∉ tr := ⟨_, _, rfl, rfl, by decide⟩
  exact ⟨_, s, tr, hstart, hrun, hbatch, (events_find_their_queue hstart hrun hlive).1⟩

end SpartanX
