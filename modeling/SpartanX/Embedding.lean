import SpartanX.AcceptLoop
import SpartanX.Connection.LifeCycle
import SpartanX.Connection.Stream

/-!
# `Embedding` — the connections of a started server

Inside a started server a connection block runs on the shared server structure, next to the accept loop, the
owner and the other connections. As long as the server is not deallocated, what the block does there is a run
of the block among other parties (`connSysStep`), on the fields the server was started with. So what holds of
every run of a block holds of every connection of every started server (`connection_embeds`).

## Contents
- **The events of one connection.** `eventsOf`.
- **Step and run.** `EmbedInv`, `EmbedInv.quiet`, `EmbedInv.advance`, `embedInv_step`.
- **Results.** `connection_embeds`, and with it `connection_invariants`.
-/

namespace SpartanX

/-! ## The events of one connection -/

/-- The event, if it is one of connection block `k`. -/
def SysEvent.ofConn (k : Nat) : SysEvent → Option ConnEvent
  | .conn j e => if j = k then some e else none
  | _         => none

/-- The events of connection block `k`. -/
def eventsOf (k : Nat) (tr : List SysEvent) : List ConnEvent := tr.filterMap (SysEvent.ofConn k)

theorem eventsOf_append (k : Nat) (tr es : List SysEvent) :
    eventsOf k (tr ++ es) = eventsOf k tr ++ eventsOf k es :=
  List.filterMap_append

theorem eventsOf_conn_self (k : Nat) (es : List ConnEvent) : eventsOf k (es.map (.conn k)) = es := by
  induction es with
  | nil => rfl
  | cons e es ih =>
      have hone : SysEvent.ofConn k (.conn k e) = some e := if_pos rfl
      rw [eventsOf, List.map_cons, List.filterMap_cons_some hone]
      exact congrArg (e :: ·) ih

theorem eventsOf_conn_ne {j k : Nat} (h : j ≠ k) (es : List ConnEvent) :
    eventsOf k (es.map (.conn j)) = [] := by
  apply List.filterMap_eq_nil_iff.mpr
  intro e he
  obtain ⟨e', _, rfl⟩ := List.mem_map.mp he
  exact if_neg h

/-! ## Step and run -/

/-- A block reads the handlers, the size of its buffer and the status of the server, and nothing else of it. -/
theorem connStep_congr {srv srv' : Server} (hh : srv'.handlers = srv.handlers)
    (hd : srv'.dataSize = srv.dataSize) (hs : srv'.status = srv.status) (c : Conn) (i : Input) :
    connStep srv' c i = connStep srv c i := by
  simp only [connStep, hh, hd, hs]

/-- Every connection has made a run of its block among other parties, on the handlers and the buffer size the
    server was started with; blocks that are not dispatched yet have no events. -/
structure EmbedInv (srv : Server) (s : Sys) (tr : List SysEvent) : Prop where
  handlers : s.server.handlers = srv.handlers
  dataSize : s.server.dataSize = srv.dataSize
  embeds   : ∀ k c, s.conns[k]? = some c → ∃ sock acts,
    Machine.run (connSysStep srv) (Conn.start sock) acts = some (c, eventsOf k tr)
  unused   : ∀ k, s.conns.length ≤ k → eventsOf k tr = []

section Embed

variable {calls : SocketCalls} {srv : Server} {s s' : Sys} {tr es : List SysEvent}

/-- A step without events of connections keeps the invariant if it keeps the connections. -/
theorem EmbedInv.quiet (hi : EmbedInv srv s tr) (hes : ∀ k, eventsOf k es = [])
    (hh : s'.server.handlers = s.server.handlers) (hd : s'.server.dataSize = s.server.dataSize)
    (hconns : s'.conns = s.conns) : EmbedInv srv s' (tr ++ es) := by
  have htr (k : Nat) : eventsOf k (tr ++ es) = eventsOf k tr := by
    rw [eventsOf_append, hes, List.append_nil]
  refine ⟨hh.trans hi.handlers, hd.trans hi.dataSize, ?_, ?_⟩
  · intro k c hc
    rw [htr]
    rw [hconns] at hc
    exact hi.embeds k c hc
  · intro k hk
    rw [htr]
    rw [hconns] at hk
    exact hi.unused k hk

/-- A step of connection `k`, or of another party at its queue, is one more step of its run. -/
theorem EmbedInv.advance (hi : EmbedInv srv s tr) {k : Nat} {c c' : Conn} {a : ConnAct} {ces : List ConnEvent}
    (hc : s.conns[k]? = some c) (hstep : connSysStep srv c a = some (c', ces))
    (hh : s'.server.handlers = s.server.handlers) (hd : s'.server.dataSize = s.server.dataSize)
    (hconns : s'.conns = s.conns.set k c') : EmbedInv srv s' (tr ++ ces.map (.conn k)) := by
  have hlt : k < s.conns.length := (List.getElem?_eq_some_iff.mp hc).1
  refine ⟨hh.trans hi.handlers, hd.trans hi.dataSize, ?_, ?_⟩
  · intro j d hd
    rw [hconns] at hd
    rw [eventsOf_append]
    by_cases hjk : k = j
    · subst hjk
      rw [List.getElem?_set_self hlt] at hd
      obtain rfl := Option.some.inj hd
      obtain ⟨sock, acts, hrun⟩ := hi.embeds k c hc
      have hone : Machine.run (connSysStep srv) c [a] = some (c', ces) :=
        Machine.run_cons_iff.mpr ⟨c', ces, [], hstep, rfl, (List.append_nil ces).symm⟩
      rw [eventsOf_conn_self]
      exact ⟨sock, acts ++ [a], Machine.run_append hrun hone⟩
    · rw [List.getElem?_set_ne hjk] at hd
      rw [eventsOf_conn_ne hjk, List.append_nil]
      exact hi.embeds j d hd
  · intro j hj
    rw [hconns, List.length_set] at hj
    rw [eventsOf_append, hi.unused j hj, eventsOf_conn_ne (Nat.ne_of_lt (Nat.lt_of_lt_of_le hlt hj))]
    rfl

/-- A release that does not deallocate the server leaves its handlers and its buffer size. -/
theorem fields_release {server server' : Server} (h : sxReleaseServer calls server = some (server', false)) :
    server'.handlers = server.handlers ∧ server'.dataSize = server.dataSize := by
  rcases sxReleaseServer_cases h with ⟨_, hfreed, _⟩ | ⟨_, _, _, rfl, _⟩
  · cases hfreed
  · exact ⟨rfl, rfl⟩

/-- The invariant survives every move of the loop. -/
theorem embedInv_loop (hm : LoopMove calls s s' es) (hlive : .freed ∉ es) (hi : EmbedInv srv s tr) :
    EmbedInv srv s' (tr ++ es) := by
  cases hm with
  | touch pc' st es hholds hslot hinc hes =>
      refine hi.quiet ?_ rfl rfl rfl
      intro k
      rcases hes with rfl | rfl <;> rfl
  | enter _ _ | inc _ | accepted _ _ | failed _ | refused _ | didKill _ =>
      exact hi.quiet (fun _ => rfl) rfl rfl rfl
  | dispatch _ =>
      have htr (k : Nat) : eventsOf k (tr ++ [.dispatched]) = eventsOf k tr := by
        rw [eventsOf_append]
        exact List.append_nil _
      refine ⟨hi.handlers, hi.dataSize, ?_, ?_⟩
      · intro k c hc
        rw [htr]
        rcases Nat.lt_or_ge k s.conns.length with hlt | hge
        · rw [List.getElem?_append_left hlt] at hc
          exact hi.embeds k c hc
        · -- the new block has not taken a step
          rw [List.getElem?_append_right hge, List.getElem?_singleton] at hc
          split at hc
          · obtain rfl := Option.some.inj hc
            exact ⟨s.sock, [], by rw [hi.unused k hge]; rfl⟩
          · cases hc
      · intro k hk
        rw [htr]
        refine hi.unused k (Nat.le_trans ?_ hk)
        rw [List.length_append]
        exact Nat.le_add_right _ _
  | release _ server' freed hrel =>
      cases freed with
      | true => exact absurd (by simp [freedIf]) hlive
      | false =>
          obtain ⟨hh, hd⟩ := fields_release hrel
          exact hi.quiet (fun _ => rfl) hh hd rfl

/-- What a step of a connection does to the shared server, if it does not deallocate it. -/
theorem share_fields {ces : List ConnEvent} (h : s.share calls ces = some (s', false)) :
    s'.server.handlers = s.server.handlers ∧ s'.server.dataSize = s.server.dataSize := by
  unfold Sys.share at h
  split at h
  · cases h
    exact ⟨rfl, rfl⟩
  · split at h
    · cases h
    · rename_i hrel
      cases h
      exact fields_release hrel
  · cases h
    exact ⟨rfl, rfl⟩
  · cases h
    exact ⟨rfl, rfl⟩

/-- **The invariant survives every step that does not deallocate the server.** -/
theorem embedInv_step {a : SysAct} (hi : EmbedInv srv s tr) (hs : sysStep calls s a = some (s', es))
    (hlive : .freed ∉ es) : EmbedInv srv s' (tr ++ es) := by
  cases a with
  | owner =>
      simp only [sysStep] at hs
      split at hs
      · split at hs
        · cases hs
        · rename_i server freed hrel
          cases hs
          cases freed with
          | true => exact absurd (by simp [freedIf]) hlive
          | false =>
              obtain ⟨hh, hd⟩ := fields_release hrel
              exact hi.quiet (fun _ => rfl) hh hd rfl
      · cases hs
  | loop i => exact embedInv_loop (loopStep_move hs) hlive hi
  | conn k i =>
      simp only [sysStep] at hs
      split at hs
      · cases hs
      rename_i c hc
      split at hs
      · cases hs
      rename_i c' ces hstep
      split at hs
      · cases hs
      rename_i s'' freed hshare
      cases hs
      cases freed with
      | true => exact absurd (by simp [freedIf]) hlive
      | false =>
          obtain ⟨hh, hd⟩ := share_fields hshare
          have hstep' : connSysStep srv c (.block s.server.status i) = some (c', ces) := by
            rw [← hstep]
            have hcongr := @connStep_congr { srv with status := s.server.status } s.server hi.handlers
              hi.dataSize rfl c i
            exact hcongr.symm
          have hadv : EmbedInv srv { s'' with conns := s.conns.set k c' } (tr ++ ces.map (.conn k)) :=
            hi.advance hc hstep' hh hd rfl
          simpa [freedIf] using hadv
  | setStatus st =>
      simp only [sysStep] at hs
      cases hs
      exact hi.quiet (fun _ => rfl) rfl rfl rfl
  | queue k a =>
      simp only [sysStep] at hs
      split at hs
      · cases hs
      rename_i c hc
      split at hs
      · rename_i hother
        split at hs
        · cases hs
        rename_i c' ces hstep
        cases hs
        have hstep' : connSysStep srv c a = some (c', ces) := by
          cases a with
          | block _ _ => cases hother
          | suspend | resume | setStatus _ => exact hstep
        exact hi.advance hc hstep' rfl rfl rfl
      · cases hs

end Embed

/-! ## Results -/

/-- **The connections of a started server are connections among other parties.** In every run of a started
    server, while the server is not deallocated, what a connection has done is a run of its block from its
    dispatch, on the handlers and the buffer size the server was started with. -/
theorem connection_embeds {calls : SocketCalls} {server : Server} {preprocessQueue operatingQueue : Bool}
    {s₀ s : Sys} {acts : List SysAct} {tr : List SysEvent}
    (hstart : sxServerStart (some server) preprocessQueue operatingQueue = some (sxSuccess, some s₀))
    (hrun : Machine.run (sysStep calls) s₀ acts = some (s, tr)) (hlive : .freed ∉ tr) {k : Nat} {c : Conn}
    (hc : s.conns[k]? = some c) :
    ∃ sock cacts, Machine.run (connSysStep server) (Conn.start sock) cacts = some (c, eventsOf k tr) := by
  have h0 : EmbedInv server s₀ [] := by
    rw [sxServerStart_spec hstart]
    exact ⟨rfl, rfl, by simp, fun _ _ => rfl⟩
  have hinv := Machine.run_invariant (I := fun s tr => .freed ∉ tr → EmbedInv server s tr)
    (fun s₁ tr₁ a s₂ es hi hs hfree => embedInv_step (hi fun h => hfree (List.mem_append_left es h)) hs
      fun h => hfree (List.mem_append_right tr₁ h)) (fun _ => h0) hrun
  exact (hinv hlive).embeds k c hc

/-- So a connection of a started server keeps the invariants of a connection block: its life cycle and its
    stream. -/
theorem connection_invariants {calls : SocketCalls} {server : Server} {preprocessQueue operatingQueue : Bool}
    {s₀ s : Sys} {acts : List SysAct} {tr : List SysEvent}
    (hstart : sxServerStart (some server) preprocessQueue operatingQueue = some (sxSuccess, some s₀))
    (hrun : Machine.run (sysStep calls) s₀ acts = some (s, tr)) (hlive : .freed ∉ tr) {k : Nat} {c : Conn}
    (hc : s.conns[k]? = some c) :
    (∃ fd, LifeInv server.handlers fd c (eventsOf k tr)) ∧ StreamInv server.dataSize c (eventsOf k tr) := by
  obtain ⟨sock, cacts, hconn⟩ := connection_embeds hstart hrun hlive hc
  exact ⟨⟨sock.sockfd, lifeInv_run hconn⟩, streamInv_run hconn⟩

end SpartanX
