import SpartanX.ServerRequests

/-!
# `Resumption` — how often `didResume` is called

A connection that finds its queue `resuming` writes `running` to it and calls `didResume`; nobody does the same
for the server. So a queue resumed once resumes once, but a server resumed once stays `resuming`, every
iteration copies that status to the queue, and `didResume` is called without end
(`didResume_without_resume`). The calls stay within the granted requests as long as each granted resume of the
server is copied at most once (`didResume_le_granted`).

## Contents
- **Resumptions.** `Resumptions`, `TakesOverOnce`.
- **Step and run.** `Conn.owedResume`, `resumptions_move`, `ResumeInv`, `resumeInv_step`.
- **Results.** `didResume_le_granted`, `didResume_without_resume`.
-/

namespace SpartanX

open CInt

/-! ## Resumptions -/

/-- What has happened to a connection: its calls of `didResume`, the resume requests granted on its queue and on
    the server, and whether one granted on the server has not been copied to the queue yet. -/
structure Resumptions where
  called  : Nat  := 0
  granted : Nat  := 0
  fresh   : Bool := false
  deriving DecidableEq, Repr

/-- The same after one more event of the connection. -/
def Resumptions.noteConn (w : Resumptions) : ConnEvent → Resumptions
  | .didResume       => { w with called := w.called + 1 }
  | .resumeQueue err => if err = sxSuccess then { w with granted := w.granted + 1 } else w
  | .copyStatus st   => if st = .resuming then { w with fresh := false } else w
  | _                => w

/-- The same after one more event, for connection `k`. -/
def Resumptions.note (k : Nat) (w : Resumptions) : ServedEvent → Resumptions
  | .resumeServer err  =>
    if err = sxSuccess then { w with granted := w.granted + 1, fresh := true } else w
  | .sys (.conn j e)   => if j = k then w.noteConn e else w
  | _                  => w

/-- The resumptions of connection `k` in a trace. -/
def resumptions (k : Nat) (tr : List ServedEvent) : Resumptions := tr.foldl (Resumptions.note k) {}

/-- The condition on a step: if connection `k` copies `resuming` from the server to its queue, then no copy since
    the last granted resume of the server has done so. -/
def TakesOverOnce (k : Nat) (tr : List ServedEvent) (s : Sys) : ServedAct → Prop
  | .conn j _ => j = k → s.conns[k]?.map (·.pc) = some .copy → s.server.status = .resuming →
    (resumptions k tr).fresh = true
  | _         => True

instance (k : Nat) (tr : List ServedEvent) (s : Sys) : (a : ServedAct) → Decidable (TakesOverOnce k tr s a)
  | .conn .. => inferInstanceAs (Decidable (_ → _ → _ → _))
  | .loop _ | .suspendServer | .resumeServer | .suspendQueue _ | .resumeQueue _ | .kill =>
    inferInstanceAs (Decidable True)

/-! ## The invariant -/

/-- The calls of `didResume` a connection is going to make without a further request. -/
def Conn.owedResume (c : Conn) : Nat :=
  (if c.queue.status = .resuming then 1 else 0) + (if c.pc = .didResume then 1 else 0)

/-- The calls are covered by the granted requests, those that are owed included; and the resuming branch has
    found `resuming`. -/
def Conn.ResumesCovered (c : Conn) (w : Resumptions) : Prop :=
  w.called + c.owedResume + (if w.fresh then 1 else 0) ≤ w.granted ∧
    (c.pc = .setRunning → c.queue.status = .resuming)

section Move

variable {srv : Server} {c c' : Conn} {i : Input} {es : List ConnEvent} {w : Resumptions}

/-- An event that does not count. -/
def ConnEvent.NoResume (e : ConnEvent) : Prop := ∀ w : Resumptions, w.noteConn e = w

/-- A step without a counting event, after which no more calls are owed. -/
theorem Conn.ResumesCovered.pass (hc : c.ResumesCovered w) (hes : ∀ e ∈ es, e.NoResume)
    (hst : c'.queue.status = .resuming → c.queue.status = .resuming) (hpc : c'.pc ≠ .didResume)
    (hjump : c'.pc = .setRunning → c'.queue.status = .resuming) :
    c'.ResumesCovered (es.foldl Resumptions.noteConn w) := by
  rw [Machine.foldl_unchanged fun e he => hes e he w]
  refine ⟨?_, hjump⟩
  have hle := hc.1
  unfold Conn.owedResume at hle ⊢
  rw [if_neg hpc]
  by_cases h : c'.queue.status = .resuming
  · rw [if_pos h]
    rw [if_pos (hst h)] at hle
    omega
  · rw [if_neg h]
    omega

/-- **The calls stay covered after every move** that copies `resuming` at most once. -/
theorem resumptions_move (hm : ConnMove srv c i c' es) (hc : c.ResumesCovered w)
    (honce : c.pc = .copy → srv.status = .resuming → w.fresh = true) :
    c'.ResumesCovered (es.foldl Resumptions.noteConn w) := by
  cases hm with
  | create hpc =>
      exact hc.pass (by simp [ConnEvent.NoResume, Resumptions.noteConn]) (by simp) (by simp) (by simp)
  | copy hpc =>
      refine ⟨?_, by simp⟩
      have hle := hc.1
      unfold Conn.owedResume at hle ⊢
      simp only [List.foldl_cons, List.foldl_nil, Resumptions.noteConn]
      by_cases hst : srv.status = .resuming
      · simp only [honce hpc hst, if_true] at hle
        simp [hst]
        omega
      · simp [hst]
        omega
  | branchResuming hpc hst =>
      exact hc.pass (by simp [ConnEvent.NoResume, Resumptions.noteConn]) id (by simp) (fun _ => hst)
  | setRunning hpc =>
      refine ⟨?_, by simp⟩
      have hle := hc.1
      simp only [Conn.owedResume, hc.2 hpc, hpc, if_true, if_false, reduceCtorEq] at hle ⊢
      exact hle
  | didResume hpc =>
      refine ⟨?_, by simp⟩
      have hle := hc.1
      simp only [Conn.owedResume, hpc, if_true] at hle
      cases hset : c.queue.handlers.didResume with
      | false =>
          simp only [callIf, Conn.owedResume, List.foldl_nil, Bool.false_eq_true, if_false, reduceCtorEq]
          omega
      | true =>
          simp only [callIf, Conn.owedResume, Resumptions.noteConn, List.foldl_cons, List.foldl_nil, if_true,
            if_false, reduceCtorEq]
          omega
  | didConnect hpc | willSuspend hpc | willKill hpc | didDisconnect hpc =>
      exact hc.pass (forall_mem_callIf (fun _ => rfl) _) id (by simp) (by simp)
  | _ hpc =>
      exact hc.pass (by simp [ConnEvent.NoResume, Resumptions.noteConn]) id (by simp) (by simp)

/-- The calls stay covered after a request on the queue. -/
theorem resumptions_request {a : ConnAct} (hrequest : a = .suspend ∨ a = .resume)
    (hs : connSysStep srv c a = some (c', es)) (hc : c.ResumesCovered w) :
    c'.ResumesCovered (es.foldl Resumptions.noteConn w) := by
  obtain ⟨hle, hjump⟩ := hc
  rcases hrequest with rfl | rfl <;> simp only [connSysStep] at hs <;> split at hs
  case inl.isTrue | inr.isTrue => cases hs
  case inl.isFalse =>
    cases hs
    rcases c.queue.suspendObject_spec with ⟨hst, h⟩ | ⟨_, err, _, h⟩ <;> rw [h]
    · refine ⟨?_, ?_⟩
      · show w.called + Conn.owedResume _ + (if w.fresh then 1 else 0) ≤ w.granted
        unfold Conn.owedResume at hle ⊢
        simp only [if_false, reduceCtorEq]
        exact Nat.le_trans (by omega) hle
      · intro hpc
        rw [hjump hpc] at hst
        simp at hst
    · exact ⟨hle, hjump⟩
  case inr.isFalse =>
    cases hs
    rcases c.queue.resumeObject_spec with ⟨hst, h⟩ | ⟨_, err, herr, h⟩ <;> rw [h]
    · refine ⟨?_, fun _ => rfl⟩
      have hnot : c.queue.status ≠ .resuming := by
        intro hres
        rw [hres] at hst
        simp at hst
      show w.called + Conn.owedResume _ + (if w.fresh then 1 else 0) ≤ w.granted + 1
      unfold Conn.owedResume at hle ⊢
      rw [if_neg hnot] at hle
      simp only [if_true]
      omega
    · have hnote : w.noteConn (.resumeQueue err) = w := if_neg herr
      rw [List.foldl_cons, List.foldl_nil, hnote]
      exact ⟨hle, hjump⟩

end Move

/-- The invariant: the calls of connection `k` are covered, also before it is dispatched. -/
structure ResumeInv (k : Nat) (s : Sys) (tr : List ServedEvent) : Prop where
  covered : ∀ c, s.conns[k]? = some c → c.ResumesCovered (resumptions k tr)
  unborn  : s.conns.length ≤ k →
    (resumptions k tr).called + (if (resumptions k tr).fresh then 1 else 0) ≤ (resumptions k tr).granted

section Step

variable {calls : SocketCalls} {k : Nat} {s s' : Sys} {tr es : List ServedEvent}

theorem ResumeInv.called_le (hi : ResumeInv k s tr) : (resumptions k tr).called ≤ (resumptions k tr).granted := by
  rcases Nat.lt_or_ge k s.conns.length with hlt | hge
  · have hle := (hi.covered _ (List.getElem?_eq_getElem hlt)).1
    omega
  · have hle := hi.unborn hge
    omega

theorem resumptions_append (k : Nat) (tr es : List ServedEvent) :
    resumptions k (tr ++ es) = es.foldl (Resumptions.note k) (resumptions k tr) :=
  List.foldl_append

/-- The events of connection `k`, seen from it. -/
theorem foldl_note_conn (k : Nat) (ces : List ConnEvent) (freed : Bool) (w : Resumptions) :
    ((ces.map (SysEvent.conn k) ++ freedIf freed).map ServedEvent.sys).foldl (Resumptions.note k) w =
      ces.foldl Resumptions.noteConn w := by
  have hself : ((ces.map (SysEvent.conn k)).map ServedEvent.sys).foldl (Resumptions.note k) w =
      ces.foldl Resumptions.noteConn w := by
    rw [List.foldl_map, List.foldl_map]
    congr 1
    funext w e
    exact if_pos rfl
  rw [List.map_append, List.foldl_append, hself]
  cases freed <;> rfl

/-- Events of other parties do not count for connection `k`. -/
theorem foldl_note_other {ses : List SysEvent} (h : ∀ e ∈ ses, ∀ ce, e ≠ .conn k ce) (w : Resumptions) :
    (ses.map ServedEvent.sys).foldl (Resumptions.note k) w = w := by
  apply Machine.foldl_unchanged
  intro e he
  obtain ⟨e', he', rfl⟩ := List.mem_map.mp he
  cases e' with
  | conn j ce => exact if_neg fun hj => h _ he' ce (by rw [hj])
  | _ => rfl

theorem not_conn_of_freedIf (freed : Bool) : ∀ e ∈ freedIf freed, ∀ ce, e ≠ .conn k ce := by
  cases freed <;> simp [freedIf]

/-- A step that leaves connection `k` alone keeps the invariant. -/
theorem ResumeInv.pass (hi : ResumeInv k s tr)
    (hes : es.foldl (Resumptions.note k) (resumptions k tr) = resumptions k tr)
    (hk : s'.conns[k]? = s.conns[k]?) (hlen : s'.conns.length = s.conns.length) : ResumeInv k s' (tr ++ es) := by
  refine ⟨?_, ?_⟩ <;> rw [resumptions_append, hes]
  · rw [hk]
    exact hi.covered
  · rw [hlen]
    exact hi.unborn

/-- A step of connection `j`, or a request on its queue. -/
theorem ResumeInv.conn {j : Nat} {c c' : Conn} {ces : List ConnEvent} {freed : Bool} (hi : ResumeInv k s tr)
    (hc : s.conns[j]? = some c) (hconns : s'.conns = s.conns.set j c')
    (hcover : j = k → c.ResumesCovered (resumptions k tr) →
      c'.ResumesCovered (ces.foldl Resumptions.noteConn (resumptions k tr))) :
    ResumeInv k s' (tr ++ (ces.map (SysEvent.conn j) ++ freedIf freed).map ServedEvent.sys) := by
  have hlt : j < s.conns.length := (List.getElem?_eq_some_iff.mp hc).1
  by_cases hjk : j = k
  · subst hjk
    refine ⟨?_, ?_⟩ <;> rw [resumptions_append, foldl_note_conn]
    · intro d hd
      rw [hconns, List.getElem?_set_self hlt] at hd
      obtain rfl := Option.some.inj hd
      exact hcover rfl (hi.covered c hc)
    · intro hle
      rw [hconns, List.length_set] at hle
      omega
  · refine hi.pass (foldl_note_other ?_ _) ?_ (by rw [hconns, List.length_set])
    · intro e he ce
      rcases List.mem_append.mp he with he | he
      · obtain ⟨e', _, rfl⟩ := List.mem_map.mp he
        simp [hjk]
      · exact not_conn_of_freedIf freed e he ce
    · rw [hconns, List.getElem?_set_ne hjk]

/-- A move of the loop: it may dispatch the connection. -/
theorem ResumeInv.loop {ses : List SysEvent} (hi : ResumeInv k s tr) (hm : LoopMove calls s s' ses) :
    ResumeInv k s' (tr ++ ses.map ServedEvent.sys) := by
  cases hm with
  | dispatch hpc =>
      refine ⟨?_, ?_⟩ <;> rw [resumptions_append, foldl_note_other (by simp)]
      · intro c hc
        rcases Nat.lt_or_ge k s.conns.length with hlt | hge
        · rw [List.getElem?_append_left hlt] at hc
          exact hi.covered c hc
        · -- the new block owes nothing
          rw [List.getElem?_append_right hge, List.getElem?_singleton] at hc
          split at hc
          · obtain rfl := Option.some.inj hc
            exact ⟨hi.unborn hge, by simp [Conn.start]⟩
          · cases hc
      · intro hle
        rw [List.length_append] at hle
        exact hi.unborn (Nat.le_trans (Nat.le_add_right _ _) hle)
  | touch pc' st es hholds hslot hinc hes =>
      refine hi.pass (foldl_note_other ?_ _) rfl rfl
      rcases hes with rfl | rfl <;> simp
  | release hpc server' freed hrel =>
      refine hi.pass (foldl_note_other ?_ _) rfl rfl
      intro e he
      rcases List.mem_cons.mp he with rfl | he
      · simp
      · exact not_conn_of_freedIf freed e he
  | _ => exact hi.pass (foldl_note_other (by simp) _) rfl rfl

/-- **The invariant survives every step that meets the condition.** -/
theorem resumeInv_step {a : ServedAct} (hi : ResumeInv k s tr) (honce : TakesOverOnce k tr s a)
    (hs : servedStep calls s a = some (s', es)) : ResumeInv k s' (tr ++ es) := by
  cases a with
  | loop i =>
      obtain ⟨ses, hsys, rfl⟩ := sysServed_some hs
      exact hi.loop (loopStep_move hsys)
  | conn j i =>
      obtain ⟨ses, hsys, rfl⟩ := sysServed_some hs
      obtain ⟨c, c', ces, freed, hc, hstep, hconns, rfl⟩ := sysStep_conn hsys
      refine hi.conn hc hconns ?_
      rintro rfl hcover
      refine resumptions_move (connStep_move hstep) hcover fun hpc hst => honce rfl ?_ hst
      rw [hc, Option.map_some, hpc]
  | suspendQueue j | resumeQueue j =>
      obtain ⟨ses, hsys, rfl⟩ := sysServed_some hs
      obtain ⟨c, c', ces, hc, _, hstep, rfl, rfl⟩ := sysStep_queue hsys
      have hnil : ces.map (SysEvent.conn j) = ces.map (SysEvent.conn j) ++ freedIf false :=
        (List.append_nil _).symm
      rw [hnil]
      exact hi.conn hc rfl fun _ hcover => resumptions_request (by simp) hstep hcover
  | suspendServer =>
      simp only [servedStep] at hs
      cases hs
      exact hi.pass rfl rfl rfl
  | resumeServer =>
      simp only [servedStep] at hs
      cases hs
      rcases s.server.resumeObject_spec with ⟨_, h⟩ | ⟨_, err, herr, h⟩ <;> rw [h]
      · refine ⟨?_, ?_⟩ <;> rw [resumptions_append]
        · intro c hc
          obtain ⟨hle, hjump⟩ := hi.covered c hc
          refine ⟨?_, hjump⟩
          show (resumptions k tr).called + c.owedResume + 1 ≤ (resumptions k tr).granted + 1
          omega
        · intro hlen
          have hle := hi.unborn hlen
          show (resumptions k tr).called + 1 ≤ (resumptions k tr).granted + 1
          omega
      · exact hi.pass (if_neg herr) rfl rfl
  | kill =>
      simp only [servedStep] at hs
      cases hs
      exact hi.pass rfl rfl rfl

end Step

/-! ## Results -/

/-- **One `didResume` per resume, if each is taken over once.** From any state in which connection `k` is not
    dispatched yet, in every run of a started server in which the connection copies each granted resume of the
    server at most once: at its end the calls of `didResume` for the connection are at most as many as the resume
    requests granted meanwhile on its queue and on the server. -/
theorem didResume_le_granted {calls : SocketCalls} {k : Nat} {s₁ s : Sys} {acts : List ServedAct}
    {tr : List ServedEvent} (hunborn : s₁.conns.length ≤ k)
    (honce : Machine.Guarded (servedStep calls) (TakesOverOnce k) [] s₁ acts)
    (hrun : Machine.run (servedStep calls) s₁ acts = some (s, tr)) :
    (resumptions k tr).called ≤ (resumptions k tr).granted := by
  have h0 : ResumeInv k s₁ [] := by
    refine ⟨?_, fun _ => Nat.le_refl 0⟩
    intro c hc
    rw [List.getElem?_eq_none hunborn] at hc
    cases hc
  have hstep (s₂ : Sys) (tr₂ : List ServedEvent) (a : ServedAct) (s₃ : Sys) (es : List ServedEvent)
      (hi : ResumeInv k s₂ tr₂) (hc : TakesOverOnce k tr₂ s₂ a) (hs : servedStep calls s₂ a = some (s₃, es)) :
      ResumeInv k s₃ (tr₂ ++ es) := resumeInv_step hi hc hs
  exact (Machine.run_invariant_of_guarded hstep h0 honce hrun).called_le

/-- `oneGuest` with `didResume` set, started. -/
def startedGuest : Sys :=
  { server := { oneGuest with
      obj      := sxRetain oneGuest.obj
      handlers := { oneGuest.handlers with didResume := true } } }

/-- The start of its one connection, up to the first iteration. -/
def firstGuest : List ServedAct :=
  List.replicate 9 (.loop .tick) ++ [.loop (.accept (some 7)), .loop .tick, .loop .tick] ++
  List.replicate 5 (.conn 0 .tick)

/-- The connection is suspended and resumed through its queue. -/
def queueResumed : List ServedAct :=
  firstGuest ++ [.suspendQueue 0, .resumeQueue 0] ++ List.replicate 10 (.conn 0 .tick)

/-- `didResume` is called once. -/
theorem didResume_le_granted_queue :
    ∃ s tr, Machine.run (servedStep {}) startedGuest queueResumed = some (s, tr) ∧
      (resumptions 0 tr).called = 1 ∧ (resumptions 0 tr).called ≤ (resumptions 0 tr).granted := by
  have hrun : Machine.run (servedStep {}) startedGuest queueResumed = some (_, _) := rfl
  exact ⟨_, _, hrun, by decide +kernel, didResume_le_granted (Nat.zero_le _) (by decide +kernel) hrun⟩

/-- **`didResume` without a resume.** The server is suspended and resumed once, and the next two iterations of the
    connection both call `didResume`. -/
theorem didResume_without_resume :
    ∃ s tr, sxServerStart (some { oneGuest with
        handlers := { oneGuest.handlers with didResume := true } }) true true =
          some (sxSuccess, some startedGuest) ∧
      Machine.run (servedStep {}) startedGuest
        (firstGuest ++ [.suspendServer, .resumeServer] ++ List.replicate 13 (.conn 0 .tick)) = some (s, tr) ∧
      (resumptions 0 tr).granted = 1 ∧ (resumptions 0 tr).called = 2 :=
  ⟨_, _, rfl, rfl, by decide +kernel, by decide +kernel⟩

end SpartanX
