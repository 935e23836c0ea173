import SpartanX.Lib.DescriptorTable
import SpartanX.Swift.StreamServer

/-!
# `Swift.Descriptors` — the descriptors of a server started by `SXStreamServer.start`

The accept loop of the Swift server closes the socket of a connection that `serverShouldConnect` refuses, and the
completion of a queue closes the queue's. Two kinds of connections are dropped without a `close`, so that their
descriptors stay open: those that come when the count has reached `maxGuest`, which happens only to a server whose
`maxGuest` is not positive, and those for whose descriptor an initialiser throws, as for an address of another length
than those of the two families. Any other descriptor that is open belongs to the loop or to a queue
(`swift_descriptors`).
-/

namespace SpartanX

open CInt DescriptorTable

/-! ## Who has which descriptor -/

/-- The completion has not closed the socket of the queue yet. -/
def GuestPc.BeforeClose : GuestPc → Bool
  | .queue | .close => true
  | _ => false

/-- The descriptor a queue has to close. -/
def Guest.fds (g : Guest) : List IntT := if g.pc.BeforeClose then [g.sockfd] else []

/-- The loop has a socket it has neither closed nor handed to a queue. -/
def SwiftPc.HasSocket : SwiftPc → Bool
  | .checkGuests | .incCount | .shouldConnect | .dispatch => true
  | _ => false

/-- The descriptors the loop and the queues have. -/
def SwiftSys.fds (s : SwiftSys) : List IntT :=
  (if s.pc.HasSocket then [s.sockfd] else []) ++ s.guests.flatMap Guest.fds

/-- The descriptor that `accept` returns in a step, also if the initialiser behind it throws. -/
def swiftAcceptedFd : SwiftAct → Option IntT
  | .loop (.accept r)        => r
  | .loop (.acceptThrows fd) => some fd
  | _                        => none

/-- The descriptor an event closes. -/
def swiftClosedFd : SwiftEvent → Option IntT
  | .refused fd       => some fd
  | .guestClosed _ fd => some fd
  | _                 => none

/-- The descriptor of a connection whose initialiser has thrown. -/
def swiftAbandonedFd : SwiftEvent → Option IntT
  | .abandoned fd => some fd
  | _             => none

/-- The descriptor an event drops without a `close`. -/
def swiftDroppedFd : SwiftEvent → Option IntT
  | .abandoned fd => some fd
  | .tooMany fd   => some fd
  | _             => none

/-! ## What a step does -/

section Step

variable {s s' : SwiftSys} {a : SwiftAct} {i : SwiftInput} {es : List SwiftEvent}

/-- The step accounts for its descriptors, with those it drops. -/
def SwiftSys.StepAccounts (s : SwiftSys) (a : SwiftAct) (s' : SwiftSys) (es : List SwiftEvent) : Prop :=
  Accounts (swiftAcceptedFd a).toList (es.filterMap swiftClosedFd) s.fds (s'.fds ++ es.filterMap swiftDroppedFd)

/-- A step that drops none. -/
theorem swiftAccounts_of_none
    (hacc : Accounts (swiftAcceptedFd a).toList (es.filterMap swiftClosedFd) s.fds s'.fds)
    (hnone : es.filterMap swiftDroppedFd = []) : s.StepAccounts a s' es := by
  unfold SwiftSys.StepAccounts
  rwa [hnone, List.append_nil]

/-- The loop hands its descriptor to a queue, closes it, or drops it. -/
theorem swiftLoopStep_fds (h : swiftLoopStep s i = some (s', es)) : s.StepAccounts (.loop i) s' es := by
  have hpass {pc : SwiftPc} {s₁ : SwiftSys} {es₁ : List SwiftEvent} (hpc : s.pc = pc)
      (hsock : s₁.pc.HasSocket = pc.HasSocket) (hsame : s₁.sockfd = s.sockfd ∧ s₁.guests = s.guests)
      (hget : swiftAcceptedFd (.loop i) = none)
      (hes : es₁.filterMap swiftClosedFd = [] ∧ es₁.filterMap swiftDroppedFd = []) :
      s.StepAccounts (.loop i) s₁ es₁ := by
    refine swiftAccounts_of_none ?_ hes.2
    unfold SwiftSys.fds
    rw [hget, hes.1, hsame.1, hsame.2, hsock, hpc]
    exact .refl _
  unfold swiftLoopStep at h
  cases i with
  | listen ok =>
      cases hpc : s.pc <;> simp only [hpc, reduceCtorEq] at h
      case listen =>
        cases h
        exact hpass hpc (by dsimp only; split <;> rfl) ⟨rfl, rfl⟩ rfl ⟨rfl, rfl⟩
  | accept r =>
      cases hpc : s.pc <;> simp only [hpc, reduceCtorEq] at h
      case accept =>
        split at h <;> cases h
        · exact hpass hpc rfl ⟨rfl, rfl⟩ rfl ⟨rfl, rfl⟩
        · refine swiftAccounts_of_none ?_ rfl
          simp [Accounts, SwiftSys.fds, hpc, SwiftPc.HasSocket, swiftAcceptedFd]
  | acceptThrows sockfd =>
      cases hpc : s.pc <;> simp only [hpc, reduceCtorEq] at h
      case accept =>
        cases h
        -- nobody has the descriptor
        unfold SwiftSys.StepAccounts Accounts SwiftSys.fds
        rw [hpc]
        show ([sockfd] ++ s.guests.flatMap Guest.fds).Perm (s.guests.flatMap Guest.fds ++ [sockfd])
        exact List.perm_append_comm
  | answer yes =>
      cases hpc : s.pc <;> simp only [hpc, reduceCtorEq] at h
      case shouldConnect =>
        split at h
        · cases yes <;> cases h
          · refine swiftAccounts_of_none ?_ rfl
            simp [Accounts, SwiftSys.fds, hpc, SwiftPc.HasSocket, swiftAcceptedFd, swiftClosedFd]
          · exact hpass hpc rfl ⟨rfl, rfl⟩ rfl ⟨rfl, rfl⟩
        · cases h
  | tick =>
      cases hpc : s.pc <;> simp only [hpc, reduceCtorEq] at h
      case setRunning | setIdle | acceptFailed | close | listenFailed =>
        cases h
        exact hpass hpc rfl ⟨rfl, rfl⟩ rfl ⟨rfl, rfl⟩
      case head | checkTerminate | checkSuspended | checkGuests =>
        cases h
        exact hpass hpc (by dsimp only; split <;> rfl) ⟨rfl, rfl⟩ rfl ⟨rfl, rfl⟩
      case didKill =>
        cases h
        exact hpass hpc rfl ⟨rfl, rfl⟩ rfl (by split <;> exact ⟨rfl, rfl⟩)
      case incCount =>
        -- nobody has the descriptor any more
        obtain ⟨count, _, heq⟩ := Option.map_eq_some_iff.mp h
        cases heq
        unfold SwiftSys.StepAccounts Accounts SwiftSys.fds
        rw [hpc]
        show ([s.sockfd] ++ s.guests.flatMap Guest.fds).Perm (s.guests.flatMap Guest.fds ++ [s.sockfd])
        exact List.perm_append_comm
      case shouldConnect =>
        split at h <;> cases h
        exact hpass hpc rfl ⟨rfl, rfl⟩ rfl ⟨rfl, rfl⟩
      case dispatch =>
        cases h
        refine swiftAccounts_of_none ?_ rfl
        unfold Accounts SwiftSys.fds
        rw [hpc, List.flatMap_append]
        show ([s.sockfd] ++ s.guests.flatMap Guest.fds).Perm (s.guests.flatMap Guest.fds ++ [s.sockfd])
        exact List.perm_append_comm

/-- A queue keeps its descriptor until its completion closes it. -/
theorem guestStep_fds {server : StreamServer} {k : Nat} {g g' : Guest} {i : RunInput}
    (h : guestStep server k g i = some (g', es)) :
    Accounts [] (es.filterMap swiftClosedFd) g.fds g'.fds ∧ es.filterMap swiftDroppedFd = [] := by
  cases hpc : g.pc <;> cases i <;> simp only [guestStep, hpc, reduceCtorEq] at h
  case queue.tick | queue.receive | queue.proceed =>
    obtain ⟨r, _, heq⟩ := Option.map_eq_some_iff.mp h
    cases heq
    have hnone {f : SwiftEvent → Option IntT} (hf : ∀ e, f (.run k e) = none) :
        (r.2.map (SwiftEvent.run k)).filterMap f = [] := by
      rw [List.filterMap_map]
      exact List.filterMap_eq_nil_iff.mpr fun e _ => hf e
    have hbefore : (if r.1.pc = .done then GuestPc.close else GuestPc.queue).BeforeClose = true := by
      split <;> rfl
    refine ⟨?_, hnone fun _ => rfl⟩
    rw [hnone fun _ => rfl]
    unfold Accounts Guest.fds
    rw [hpc, hbefore]
    exact .refl _
  case close.tick | decCount.tick =>
    cases h
    simp [Accounts, Guest.fds, hpc, GuestPc.BeforeClose, swiftClosedFd, swiftDroppedFd]
  case didDisconnect.tick =>
    cases h
    split <;> simp [Accounts, Guest.fds, hpc, GuestPc.BeforeClose, swiftClosedFd, swiftDroppedFd]

/-- **A step accounts for its descriptors.** -/
theorem swiftStep_fds (hs : swiftStep s a = some (s', es)) : s.StepAccounts a s' es := by
  cases a with
  | loop i => exact swiftLoopStep_fds hs
  | setStatus st =>
      cases hs
      exact swiftAccounts_of_none (.refl _) rfl
  | guest k i =>
      simp only [swiftStep] at hs
      split at hs
      · cases hs
      · next g hg =>
          split at hs
          · cases hs
          · next g' es' hstep =>
              obtain ⟨count, _, heq⟩ := Option.map_eq_some_iff.mp hs
              cases heq
              obtain ⟨hacc, hnone⟩ := guestStep_fds hstep
              exact swiftAccounts_of_none ((Accounts.party hg hacc).frame _) hnone
  | setQueueStatus k st =>
      simp only [swiftStep] at hs
      split at hs
      · cases hs
      · next g hg =>
          cases hs
          have hsame (loop : RunLoop) : Accounts [] [] g.fds ({ g with loop := loop } : Guest).fds := .refl _
          exact swiftAccounts_of_none ((Accounts.party hg (hsame _)).frame _) rfl

end Step

/-! ## Results -/

section Run

variable {server : StreamServer} {s : SwiftSys} {t : Table IntT} {acts : List SwiftAct} {tr : List SwiftEvent}

/-- The table has what the loop and the queues have, and what has been dropped. -/
def SwiftSys.InTable (s : SwiftSys) (t : Table IntT) (tr : List SwiftEvent) : Prop :=
  Balanced t (s.fds ++ tr.filterMap swiftDroppedFd)

theorem swiftInTable_step {s' : SwiftSys} {t' : Table IntT} {a : SwiftAct} {es : List SwiftEvent}
    (hi : s.InTable t tr)
    (h : withTable swiftStep swiftAcceptedFd swiftClosedFd (s, t) a = some ((s', t'), es)) :
    s'.InTable t' (tr ++ es) := by
  have hacc : s.StepAccounts a s' es := swiftStep_fds (withTable_eq_some h).1
  unfold SwiftSys.InTable
  rw [List.filterMap_append]
  exact balanced_step hi h
    ((hacc.frame _).of_perm List.perm_append_comm (List.perm_append_comm_assoc ..))

/-- If nobody has been turned away, what has been dropped are the descriptors whose initialiser has thrown. -/
theorem dropped_of_nobodyTurnedAway (h : NobodyTurnedAway tr) :
    tr.filterMap swiftDroppedFd = tr.filterMap swiftAbandonedFd := by
  refine List.filterMap_congr fun e he => ?_
  have hnot := h e he
  cases e with
  | tooMany fd => cases hnot
  | _ => rfl

/-- **The descriptors of a Swift server.** In every interleaving of the accept loop, the queues and whoever writes
    statuses: what is open is what the loop and the queues that have not closed theirs have, the descriptor of each
    connection that was one too many, and each one that `accept` returned and for which an initialiser then threw; no
    two are the same; no `close` is of a descriptor that is not open. If `maxGuest` is positive, only those whose
    initialiser threw are left behind. -/
theorem swift_descriptors
    (hrun : Machine.run (withTable swiftStep swiftAcceptedFd swiftClosedFd) (sxStreamServerStart server, {}) acts =
      some ((s, t), tr)) :
    t.stray = [] ∧ t.opened.Nodup ∧ t.opened.Perm (s.fds ++ tr.filterMap swiftDroppedFd) ∧
      (0 < server.maxGuest → t.opened.Perm (s.fds ++ tr.filterMap swiftAbandonedFd)) := by
  have h0 : (sxStreamServerStart server).InTable {} [] := ⟨.refl _, List.nodup_nil, rfl⟩
  have hi : s.InTable t ([] ++ tr) := Machine.run_invariant (I := fun p tr => p.1.InTable p.2 tr)
    (fun _ _ _ _ _ hi h => swiftInTable_step hi h) h0 hrun
  refine ⟨hi.stray, hi.nodup, hi.opened, fun hpos => ?_⟩
  rw [← dropped_of_nobodyTurnedAway (guests_never_turned_away hpos (run_of_withTable hrun)).2]
  exact hi.opened

end Run

/-- A connection that was reset before it was accepted, and one that comes to a server with no room. -/
def leavesTwoOpen : List SwiftAct :=
  [.loop .tick, .loop .tick, .loop (.listen true), .loop .tick, .loop .tick, .loop (.acceptThrows 4), .loop .tick,
    .loop .tick, .loop (.listen true), .loop .tick, .loop .tick, .loop (.accept (some 5)), .loop .tick, .loop .tick]

/-- Both descriptors stay open, and neither the loop nor a queue has them. -/
theorem swift_descriptors_leavesTwoOpen :
    ∃ s t tr, Machine.run (withTable swiftStep swiftAcceptedFd swiftClosedFd)
        (sxStreamServerStart { maxGuest := 0 }, {}) leavesTwoOpen = some ((s, t), tr) ∧
      s.fds = [] ∧ tr.filterMap swiftDroppedFd = [4, 5] ∧
      t.opened.Perm (s.fds ++ tr.filterMap swiftDroppedFd) := by
  obtain ⟨s, t, tr, hrun, hfds, hdropped⟩ : ∃ s t tr,
      Machine.run (withTable swiftStep swiftAcceptedFd swiftClosedFd) (sxStreamServerStart { maxGuest := 0 }, {})
        leavesTwoOpen = some ((s, t), tr) ∧
      s.fds = [] ∧ tr.filterMap swiftDroppedFd = [4, 5] := ⟨_, _, _, rfl, rfl, rfl⟩
  exact ⟨s, t, tr, hrun, hfds, hdropped, (swift_descriptors hrun).2.2.1⟩

end SpartanX
