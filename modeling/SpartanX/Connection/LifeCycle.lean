import SpartanX.Connection.Block

/-!
# `Connection.LifeCycle` — the life cycle of a connection block

The observable events of a block that reaches its end, in the order the handlers are documented in: connect,
the exchange, at most one kill notice, one teardown. The invariant (`Stage`) cuts the program points into
setup, loop and teardown; which teardown events have happened is a function of the program point
(`teardown`).

## Contents
- **What is observed.** `ConnEvent.observable`, `LifeCycle`.
- **Step and run.** `lifeInv_move`, `lifeInv_step`, `lifeInv_run`.
- **The terminating iteration.** `run_leaving`: once the switch has read an ending status the block only
  tears down; `terminating_iteration`.
-/

namespace SpartanX

open CInt

/-! ## What is observed -/

/-- The calls of handlers, and what the teardown of a connection does. -/
def ConnEvent.observable : ConnEvent → Bool
  | .didConnect | .didDisconnect | .willSuspend | .didResume | .willKill => true
  | .dataHandler .. => true
  | .close _ | .releaseServer | .releaseQueue _ | .decCount => true
  | _ => false

/-- The calls the loop makes while the connection is open. -/
def ConnEvent.InExchange : ConnEvent → Bool
  | .willSuspend | .didResume | .dataHandler .. => true
  | _ => false

/-- The pattern of a whole connection: `didConnect`, the exchange with at most one `willSuspend`, at most one
    `willKill`, and one teardown with nothing after it; the server reference that the teardown gives back was
    taken once. -/
def LifeCycle (h : Handlers) (fd : IntT) (tr : List ConnEvent) : Prop :=
  ∃ exchange kill freed,
    tr.filter ConnEvent.observable =
      callIf h.didConnect .didConnect ++ exchange ++ kill ++
        (.close fd :: callIf h.didDisconnect .didDisconnect ++
          [.releaseServer, .releaseQueue freed, .decCount]) ∧
    (∀ e ∈ exchange, e.InExchange) ∧ exchange.count .willSuspend ≤ 1 ∧
    (kill = [] ∨ kill = [.willKill]) ∧ tr.count .retainServer = 1

/-! ## The invariant -/

/-- The program points before `didConnect` has been called. -/
def ConnPc.InSetup : ConnPc → Bool
  | .create | .transfer | .retain | .didConnect => true
  | _ => false

/-- The program points at the label `exit` and after it. -/
def ConnPc.InTeardown : ConnPc → Bool
  | .close | .didDisconnect | .releaseServer | .releaseQueue | .decCount | .done => true
  | _ => false

/-- The program points before the block has taken its server reference. -/
def ConnPc.BeforeRetain : ConnPc → Bool
  | .create | .transfer | .retain => true
  | _ => false

/-- The teardown events that have happened at a program point. -/
def teardownEvents (h : Handlers) (fd : IntT) (freed : Bool) : ConnPc → List ConnEvent
  | .didDisconnect => [.close fd]
  | .releaseServer => .close fd :: callIf h.didDisconnect .didDisconnect
  | .releaseQueue  => .close fd :: callIf h.didDisconnect .didDisconnect ++ [.releaseServer]
  | .decCount      =>
    .close fd :: callIf h.didDisconnect .didDisconnect ++ [.releaseServer, .releaseQueue freed]
  | .done          =>
    .close fd :: callIf h.didDisconnect .didDisconnect ++ [.releaseServer, .releaseQueue freed, .decCount]
  | _              => []

/-- An exchange; before the latch `suspended` is set it has no `willSuspend`, afterwards at most one. -/
def Exchange (suspended : Bool) (exchange : List ConnEvent) : Prop :=
  (∀ e ∈ exchange, e.InExchange) ∧ exchange.count .willSuspend ≤ if suspended then 1 else 0

/-- How far the observed events have got, by the stage the block is in. -/
inductive Stage (h : Handlers) (fd : IntT) (c : Conn) (obs : List ConnEvent) : Prop
  | setup (hpc : c.pc.InSetup = true) (hobs : obs = [])
  | loop (exchange : List ConnEvent) (hpc : c.pc.InSetup = false) (hpc' : c.pc.InTeardown = false)
      (hex : Exchange c.suspended exchange) (hobs : obs = callIf h.didConnect .didConnect ++ exchange)
  | teardown (exchange kill : List ConnEvent) (freed : Bool) (hpc : c.pc.InTeardown = true)
      (hex : Exchange true exchange) (hkill : kill = [] ∨ kill = [.willKill])
      (hobs : obs = callIf h.didConnect .didConnect ++ exchange ++ kill ++ teardownEvents h fd freed c.pc)

/-- The invariant of a run: which descriptor and which handlers the block works with, whether it has taken its
    server reference, and how far its observed events have got. -/
structure LifeInv (h : Handlers) (fd : IntT) (c : Conn) (tr : List ConnEvent) : Prop where
  accepted : c.pc = .create → c.sock.sockfd = fd
  captured : c.pc ≠ .create → c.socket.sockfd = fd
  created  : c.pc = .transfer → c.queue.handlers.errHandler = false
  handlers : c.pc ≠ .create → c.pc ≠ .transfer → c.queue.handlers = { h with errHandler := false }
  retained : tr.count .retainServer = if c.pc.BeforeRetain then 0 else 1
  stage    : Stage h fd c (tr.filter ConnEvent.observable)

/-! ### The teardown, one statement further -/

theorem teardownEvents_releaseServer (h : Handlers) (fd : IntT) (freed : Bool) :
    teardownEvents h fd freed .releaseQueue =
      teardownEvents h fd freed .releaseServer ++ [.releaseServer].filter ConnEvent.observable :=
  rfl

theorem teardownEvents_releaseQueue (h : Handlers) (fd : IntT) (freed freed' : Bool) :
    teardownEvents h fd freed' .decCount =
      teardownEvents h fd freed .releaseQueue ++ [.releaseQueue freed'].filter ConnEvent.observable := by
  unfold teardownEvents
  rw [List.append_assoc]
  rfl

theorem teardownEvents_decCount (h : Handlers) (fd : IntT) (freed : Bool) :
    teardownEvents h fd freed .done =
      teardownEvents h fd freed .decCount ++ [.decCount].filter ConnEvent.observable := by
  unfold teardownEvents
  rw [List.append_assoc]
  rfl

/-! ### The exchange -/

theorem exchange_nil (suspended : Bool) : Exchange suspended [] := by
  cases suspended <;> simp [Exchange]

theorem Exchange.latched {suspended : Bool} {exchange : List ConnEvent} (h : Exchange suspended exchange) :
    Exchange true exchange := by
  refine ⟨h.1, Nat.le_trans h.2 ?_⟩
  cases suspended <;> decide

/-- Any exchange call but `willSuspend` extends an exchange. -/
theorem Exchange.snoc {suspended : Bool} {exchange es : List ConnEvent} (h : Exchange suspended exchange)
    (hes : ∀ e ∈ es, e.InExchange = true ∧ e ≠ .willSuspend) : Exchange suspended (exchange ++ es) := by
  constructor
  · intro e he
    rcases List.mem_append.mp he with he | he
    · exact h.1 e he
    · exact (hes e he).1
  · have hz : es.count .willSuspend = 0 := List.count_eq_zero.mpr fun hm => (hes _ hm).2 rfl
    rw [List.count_append, hz]
    exact h.2

/-- The first `willSuspend` sets the latch. -/
theorem Exchange.willSuspend {exchange : List ConnEvent} (h : Exchange false exchange) (isSet : Bool) :
    Exchange true (exchange ++ callIf isSet .willSuspend) := by
  have h0 : exchange.count .willSuspend = 0 := Nat.le_zero.mp h.2
  constructor
  · intro e he
    rcases List.mem_append.mp he with he | he
    · exact h.1 e he
    · cases isSet <;> simp_all [callIf, ConnEvent.InExchange]
  · rw [List.count_append, h0]
    cases isSet <;> simp [callIf]

/-! ## Step lemmas -/

section Move

variable {srv : Server} {h : Handlers} {fd : IntT} {c c' : Conn} {i : Input} {tr es : List ConnEvent}

/-- A move inside the loop that calls no handler keeps the stage. -/
theorem Stage.silent (hs : Stage h fd c (tr.filter ConnEvent.observable))
    (hloop : c.pc.InSetup = false ∧ c.pc.InTeardown = false)
    (hloop' : c'.pc.InSetup = false ∧ c'.pc.InTeardown = false) (hlatch : c'.suspended = c.suspended)
    (hes : es.filter ConnEvent.observable = []) : Stage h fd c' ((tr ++ es).filter ConnEvent.observable) := by
  cases hs with
  | setup hpc _ => simp [hloop.1] at hpc
  | teardown _ _ _ hpc _ _ _ => simp [hloop.2] at hpc
  | loop exchange _ _ hex hobs =>
      refine .loop exchange hloop'.1 hloop'.2 (by rwa [hlatch]) ?_
      rw [List.filter_append, hes, List.append_nil, hobs]

/-- A move inside the loop that makes an exchange call. -/
theorem Stage.call (hs : Stage h fd c (tr.filter ConnEvent.observable))
    (hloop : c.pc.InSetup = false ∧ c.pc.InTeardown = false)
    (hloop' : c'.pc.InSetup = false ∧ c'.pc.InTeardown = false) (hlatch : c'.suspended = c.suspended)
    (hes : ∀ e ∈ es, e.InExchange = true ∧ e ≠ .willSuspend) (hobs : es.filter ConnEvent.observable = es) :
    Stage h fd c' ((tr ++ es).filter ConnEvent.observable) := by
  cases hs with
  | setup hpc _ => simp [hloop.1] at hpc
  | teardown _ _ _ hpc _ _ _ => simp [hloop.2] at hpc
  | loop exchange _ _ hex hobs' =>
      refine .loop (exchange ++ es) hloop'.1 hloop'.2 (by rw [hlatch]; exact hex.snoc hes) ?_
      rw [List.filter_append, hobs, hobs', List.append_assoc]

/-- A move from the loop to the label `exit`, with or without `willKill`. -/
theorem Stage.leave (hs : Stage h fd c (tr.filter ConnEvent.observable))
    (hloop : c.pc.InSetup = false ∧ c.pc.InTeardown = false) (hpc' : c'.pc = .close)
    (hkill : es.filter ConnEvent.observable = [] ∨ es.filter ConnEvent.observable = [.willKill]) :
    Stage h fd c' ((tr ++ es).filter ConnEvent.observable) := by
  cases hs with
  | setup hpc _ => simp [hloop.1] at hpc
  | teardown _ _ _ hpc _ _ _ => simp [hloop.2] at hpc
  | loop exchange _ _ hex hobs =>
      refine .teardown exchange (es.filter ConnEvent.observable) false (by rw [hpc']; rfl) hex.latched hkill ?_
      rw [List.filter_append, hobs, hpc']
      simp [teardownEvents]

/-- A move of the teardown. -/
theorem Stage.tear (hs : Stage h fd c (tr.filter ConnEvent.observable)) (hpc : c.pc.InTeardown = true)
    (hpc' : c'.pc.InTeardown = true)
    (hstep : ∀ freed, ∃ freed', teardownEvents h fd freed' c'.pc =
      teardownEvents h fd freed c.pc ++ es.filter ConnEvent.observable) :
    Stage h fd c' ((tr ++ es).filter ConnEvent.observable) := by
  cases hs with
  | setup hpc'' _ =>
      cases hp : c.pc <;> rw [hp] at hpc hpc'' <;> simp [ConnPc.InSetup, ConnPc.InTeardown] at hpc hpc''
  | loop _ _ hpc'' _ _ => simp [hpc] at hpc''
  | teardown exchange kill freed _ hex hkill hobs =>
      obtain ⟨freed', hf⟩ := hstep freed
      refine .teardown exchange kill freed' hpc' hex hkill ?_
      rw [List.filter_append, hobs, hf, List.append_assoc, List.append_assoc, List.append_assoc]

/-- Nothing has been observed during the setup. -/
theorem Stage.setup_nil {obs : List ConnEvent} (hs : Stage h fd c obs) (hpc : c.pc.InSetup = true) :
    obs = [] := by
  cases hs with
  | setup _ hobs => exact hobs
  | loop _ hpc' _ _ _ => simp [hpc] at hpc'
  | teardown _ _ _ hpc' _ _ _ =>
      cases hq : c.pc <;> rw [hq] at hpc hpc' <;> simp [ConnPc.InSetup, ConnPc.InTeardown] at hpc hpc'

/-- A move of the setup that calls no handler. -/
theorem Stage.prepare (hs : Stage h fd c (tr.filter ConnEvent.observable)) (hpc : c.pc.InSetup = true)
    (hpc' : c'.pc.InSetup = true) (hes : es.filter ConnEvent.observable = []) :
    Stage h fd c' ((tr ++ es).filter ConnEvent.observable) := by
  refine .setup hpc' ?_
  rw [List.filter_append, hs.setup_nil hpc, hes, List.append_nil]

/-- The filter keeps a handler call as it is, whether the handler is set or not. -/
theorem filter_callIf {e : ConnEvent} (he : e.observable = true) (isSet : Bool) :
    (callIf isSet e).filter ConnEvent.observable = callIf isSet e := by
  cases isSet <;> simp [callIf, he]

/-- **The stage survives every move.** -/
theorem stage_move (hm : ConnMove srv c i c' es)
    (hh : c.pc ≠ .create → c.pc ≠ .transfer → c.queue.handlers = { h with errHandler := false })
    (hfd : c.pc ≠ .create → c.socket.sockfd = fd)
    (hs : Stage h fd c (tr.filter ConnEvent.observable)) :
    Stage h fd c' ((tr ++ es).filter ConnEvent.observable) := by
  cases hm with
  -- setup
  | create hpc | transfer hpc | retain hpc => exact hs.prepare (by rw [hpc]; rfl) rfl rfl
  | didConnect hpc =>
      have hd : c.queue.handlers.didConnect = h.didConnect := by
        rw [hh (by simp [hpc]) (by simp [hpc])]
      refine .loop [] rfl rfl (exchange_nil _) ?_
      rw [List.filter_append, hs.setup_nil (by rw [hpc]; rfl), hd, filter_callIf rfl, List.nil_append,
        List.append_nil]
  -- the loop, silent moves
  | alloc hpc | clear hpc | compareRunning hpc | compareOther hpc | copy hpc | branchRunning hpc
  | branchResuming hpc | branchSuspend hpc | branchEnds hpc | branchDefault hpc | callRecv hpc | recv hpc
  | setRunning hpc | callRecvSuspended hpc | recvSuspended hpc | rereadDelivers hpc | rereadSkips hpc
  | testKeeps hpc => exact hs.silent (by rw [hpc]; exact ⟨rfl, rfl⟩) ⟨rfl, rfl⟩ rfl rfl
  -- the loop, exchange calls
  | handle hpc | handleSuspended hpc =>
      exact hs.call (by rw [hpc]; exact ⟨rfl, rfl⟩) ⟨rfl, rfl⟩ rfl (by simp [ConnEvent.InExchange]) rfl
  | didResume hpc =>
      refine hs.call (by rw [hpc]; exact ⟨rfl, rfl⟩) ⟨rfl, rfl⟩ rfl ?_ (filter_callIf rfl _)
      cases c.queue.handlers.didResume <;> simp [callIf, ConnEvent.InExchange]
  | willSuspend hpc =>
      cases hs with
      | setup hp _ => rw [hpc] at hp; simp [ConnPc.InSetup] at hp
      | teardown _ _ _ hp _ _ _ => rw [hpc] at hp; simp [ConnPc.InTeardown] at hp
      | loop exchange _ _ hex hobs =>
          refine .loop (exchange ++ callIf (!c.suspended && c.queue.handlers.willSuspend) .willSuspend)
            rfl rfl ?_ (by rw [List.filter_append, filter_callIf rfl, hobs, List.append_assoc])
          -- the latch decides whether this is the first `willSuspend`
          cases hsus : c.suspended with
          | false =>
              rw [hsus] at hex
              exact hex.willSuspend _
          | true =>
              rw [hsus] at hex
              simpa [callIf] using hex
  -- from the loop to `exit`
  | recvFails hpc | recvSuspendedFails hpc | recvSuspendedEmpty hpc | rereadEnds hpc | testEnds hpc =>
      exact hs.leave (by rw [hpc]; exact ⟨rfl, rfl⟩) rfl (.inl rfl)
  | willKill hpc =>
      refine hs.leave (by rw [hpc]; exact ⟨rfl, rfl⟩) rfl ?_
      cases c.queue.handlers.willKill
      · exact .inl rfl
      · exact .inr rfl
  -- teardown
  | close hpc =>
      have hc : c.socket.sockfd = fd := hfd (by simp [hpc])
      refine hs.tear (by rw [hpc]; rfl) rfl fun freed => ⟨freed, ?_⟩
      rw [hpc, hc]
      rfl
  | didDisconnect hpc =>
      have hd : c.queue.handlers.didDisconnect = h.didDisconnect := by
        rw [hh (by simp [hpc]) (by simp [hpc])]
      refine hs.tear (by rw [hpc]; rfl) rfl fun freed => ⟨freed, ?_⟩
      rw [hpc, hd, filter_callIf rfl]
      rfl
  | releaseServer hpc =>
      refine hs.tear (by rw [hpc]; rfl) rfl fun freed => ⟨freed, ?_⟩
      rw [hpc]
      exact teardownEvents_releaseServer h fd freed
  | releaseQueue hpc =>
      -- whether the queue is deallocated here is not decided before this step
      generalize (sxRelease c.queue.obj).2 = gone
      refine hs.tear (by rw [hpc]; rfl) rfl fun freed => ⟨gone, ?_⟩
      rw [hpc]
      exact teardownEvents_releaseQueue h fd freed gone
  | decCount hpc =>
      refine hs.tear (by rw [hpc]; rfl) rfl fun freed => ⟨freed, ?_⟩
      rw [hpc]
      exact teardownEvents_decCount h fd freed

/-- Once the server reference is taken a move keeps the captured socket and the copied handlers, and takes no
    further reference. -/
theorem ConnMove.frame (hm : ConnMove srv c i c' es) (hpc : c.pc.BeforeRetain = false) :
    c'.pc.BeforeRetain = false ∧ c'.socket = c.socket ∧ c'.queue.handlers = c.queue.handlers ∧
      es.count .retainServer = 0 := by
  have hcall (b : Bool) {e : ConnEvent} (he : e ≠ .retainServer) : (callIf b e).count .retainServer = 0 := by
    cases b <;> simp [callIf, he]
  cases hm with
  | create h | transfer h | retain h => rw [h] at hpc; simp [ConnPc.BeforeRetain] at hpc
  | didConnect | didResume | willSuspend | willKill | didDisconnect =>
      exact ⟨rfl, rfl, rfl, hcall _ (by simp)⟩
  | _ => exact ⟨rfl, rfl, rfl, by simp⟩

theorem ConnPc.ne_of_not_beforeRetain {pc : ConnPc} (h : pc.BeforeRetain = false) :
    pc ≠ .create ∧ pc ≠ .transfer := by
  cases pc <;> simp_all [ConnPc.BeforeRetain]

/-- The invariant survives every move of the block. -/
theorem lifeInv_move (hm : ConnMove srv c i c' es) (hsrv : srv.handlers = h) (hi : LifeInv h fd c tr) :
    LifeInv h fd c' (tr ++ es) := by
  have hstage := stage_move hm hi.handlers hi.captured hi.stage
  cases hpc : c.pc.BeforeRetain with
  | false =>
      obtain ⟨hpc', hsock, hhan, hret⟩ := hm.frame hpc
      obtain ⟨h1, h2⟩ := ConnPc.ne_of_not_beforeRetain hpc
      obtain ⟨h1', h2'⟩ := ConnPc.ne_of_not_beforeRetain hpc'
      refine ⟨fun h => absurd h h1', ?_, fun h => absurd h h2', ?_, ?_, hstage⟩
      · intro _
        rw [hsock]
        exact hi.captured h1
      · intro _ _
        rw [hhan]
        exact hi.handlers h1 h2
      · rw [List.count_append, hret, hi.retained, hpc, hpc']
        rfl
  | true =>
      have hret : tr.count .retainServer = 0 := by rw [hi.retained, hpc]; rfl
      cases hm with
      | create h =>
          refine ⟨fun h' => by simp at h', fun _ => hi.accepted h, fun _ => rfl, fun _ h' => absurd rfl h',
            ?_, hstage⟩
          rw [List.count_append, hret]
          rfl
      | transfer h =>
          have hcap := hi.captured (by simp [h])
          refine ⟨fun h' => by simp at h', fun _ => hcap, fun h' => by simp at h', ?_, ?_, hstage⟩
          · intro _ _
            show { srv.handlers with errHandler := c.queue.handlers.errHandler } = _
            rw [hi.created h, hsrv]
          · rw [List.count_append, hret]
            rfl
      | retain h =>
          have hcap := hi.captured (by simp [h])
          have hhan := hi.handlers (by simp [h]) (by simp [h])
          refine ⟨fun h' => by simp at h', fun _ => hcap, fun h' => by simp at h', fun _ _ => hhan, ?_, hstage⟩
          rw [List.count_append, hret]
          rfl
      | _ h => simp [h, ConnPc.BeforeRetain] at hpc

end Move

/-! ## Runs -/

/-- The invariant survives every step of a connection among other parties. -/
theorem lifeInv_step {srv : Server} {fd : IntT} {c c' : Conn} {tr es : List ConnEvent} {a : ConnAct}
    (hi : LifeInv srv.handlers fd c tr) (hs : connSysStep srv c a = some (c', es)) :
    LifeInv srv.handlers fd c' (tr ++ es) := by
  cases a with
  | block st i => exact lifeInv_move (connStep_move hs) rfl hi
  | suspend | resume | setStatus _ =>
      obtain ⟨_, st, e, rfl, rfl, he⟩ := connSysStep_other rfl hs
      have he' : e.observable = false := by cases e <;> first | rfl | cases he
      have hobs : (tr ++ [e]).filter ConnEvent.observable = tr.filter ConnEvent.observable := by
        simp [List.filter_append, he']
      have hret : e ≠ .retainServer := fun h => by rw [h] at he; cases he
      refine ⟨hi.accepted, hi.captured, hi.created, hi.handlers, ?_, ?_⟩
      · rw [List.count_append, hi.retained]
        simp [hret]
      · rw [hobs]
        cases hi.stage with
        | setup hpc hobs => exact .setup hpc hobs
        | loop exchange hpc hpc' hex hobs => exact .loop exchange hpc hpc' hex hobs
        | teardown exchange kill freed hpc hex hkill hobs =>
            exact .teardown exchange kill freed hpc hex hkill hobs

/-- The invariant holds in every run from the dispatch of the block. -/
theorem lifeInv_run {srv : Server} {sock : Socket} {acts : List ConnAct} {c : Conn} {tr : List ConnEvent}
    (hrun : Machine.run (connSysStep srv) (Conn.start sock) acts = some (c, tr)) :
    LifeInv srv.handlers sock.sockfd c tr := by
  have h0 : LifeInv srv.handlers sock.sockfd (Conn.start sock) [] :=
    ⟨fun _ => rfl, fun h => absurd rfl h, fun h => by simp [Conn.start] at h, fun h => absurd rfl h, rfl,
      .setup rfl rfl⟩
  simpa using Machine.run_invariant (I := LifeInv srv.handlers sock.sockfd)
    (fun _ _ _ _ _ hi hs => lifeInv_step hi hs) h0 hrun

/-! ## The terminating iteration -/

/-- What only an iteration that goes on does: receive, deliver, begin anew. -/
def ConnEvent.Works : ConnEvent → Bool
  | .iterate | .recv .. | .dataHandler .. => true
  | _ => false

/-- The program points from `willKill` on. -/
def ConnPc.Leaving (pc : ConnPc) : Bool := pc == .willKill || pc.InTeardown

/-- Once the block is leaving it only tears down. -/
theorem leaving_move {srv : Server} {c c' : Conn} {i : Input} {es : List ConnEvent}
    (hm : ConnMove srv c i c' es) (hpc : c.pc.Leaving = true) :
    c'.pc.Leaving = true ∧ ∀ e ∈ es, e.Works = false := by
  cases hm with
  | willKill _ | didDisconnect _ => exact ⟨rfl, forall_mem_callIf (by rfl) _⟩
  | close _ | releaseServer _ | releaseQueue _ | decCount _ => exact ⟨rfl, by simp [ConnEvent.Works]⟩
  | _ h => rw [h] at hpc; exact absurd hpc (by decide)

/-- The doing of another party leaves the program point alone, and is none of the work of an iteration. -/
theorem connSysStep_byOther {srv : Server} {c c' : Conn} {a : ConnAct} {es : List ConnEvent}
    (ha : a.ByOther = true) (hs : connSysStep srv c a = some (c', es)) :
    c'.pc = c.pc ∧ ∀ e ∈ es, e.Works = false := by
  obtain ⟨_, st, e, rfl, rfl, he⟩ := connSysStep_other ha hs
  refine ⟨rfl, ?_⟩
  intro e' h
  rw [List.mem_singleton.mp h]
  cases e <;> first | rfl | cases he

/-- The same for any number of doings of other parties. -/
theorem run_byOther {srv : Server} {acts : List ConnAct} {c c' : Conn} {tr : List ConnEvent}
    (ha : ∀ a ∈ acts, a.ByOther = true) (hrun : Machine.run (connSysStep srv) c acts = some (c', tr)) :
    c'.pc = c.pc ∧ ∀ e ∈ tr, e.Works = false := by
  induction acts generalizing c tr with
  | nil => cases hrun; exact ⟨rfl, by simp⟩
  | cons a acts ih =>
      obtain ⟨c₁, es, tr', hs, hrun', rfl⟩ := Machine.run_cons_iff.mp hrun
      obtain ⟨hpc, hes⟩ := connSysStep_byOther (ha a List.mem_cons_self) hs
      obtain ⟨hpc', htr⟩ := ih (fun b hb => ha b (List.mem_cons_of_mem a hb)) hrun'
      refine ⟨hpc'.trans hpc, ?_⟩
      intro e he
      rcases List.mem_append.mp he with he | he
      · exact hes e he
      · exact htr e he

/-- A leaving block leaves: no continuation receives, delivers or begins another iteration. -/
theorem run_leaving {srv : Server} {acts : List ConnAct} {c c' : Conn} {tr : List ConnEvent}
    (hpc : c.pc.Leaving = true) (hrun : Machine.run (connSysStep srv) c acts = some (c', tr)) :
    ∀ e ∈ tr, e.Works = false := by
  have hstep (c₁ : Conn) (tr₁ : List ConnEvent) (a : ConnAct) (c₂ : Conn) (es : List ConnEvent)
      (hi : c₁.pc.Leaving = true ∧ ∀ e ∈ tr₁, e.Works = false) (hs : connSysStep srv c₁ a = some (c₂, es)) :
      c₂.pc.Leaving = true ∧ ∀ e ∈ tr₁ ++ es, e.Works = false := by
    have hes : c₂.pc.Leaving = true ∧ ∀ e ∈ es, e.Works = false := by
      cases ha : a.ByOther with
      | true =>
          obtain ⟨hpc, hes⟩ := connSysStep_byOther ha hs
          exact ⟨by rw [hpc]; exact hi.1, hes⟩
      | false =>
          cases a with
          | block st i => exact leaving_move (connStep_move hs) hi.1
          | suspend | resume | setStatus _ => cases ha
    refine ⟨hes.1, ?_⟩
    intro e he
    rcases List.mem_append.mp he with he | he
    · exact hi.2 e he
    · exact hes.2 e he
  have h0 : c.pc.Leaving = true ∧ ∀ e ∈ ([] : List ConnEvent), e.Works = false := ⟨hpc, by simp⟩
  have h := Machine.run_invariant (I := fun c tr => c.pc.Leaving = true ∧ ∀ e ∈ tr, e.Works = false)
    hstep h0 hrun
  simpa using h.2

/-- The test of an iteration that finds an ending status of the server goes on to the copy. -/
theorem compare_ends {srv : Server} {c c' : Conn} {st : Status} {es : List ConnEvent} (hpc : c.pc = .compare)
    (hst : st.Ends) (hs : connSysStep srv c (.block st .tick) = some (c', es)) :
    c'.pc = .copy ∧ ∀ e ∈ es, e.Works = false := by
  have hne : st ≠ .running := by rcases hst with rfl | rfl <;> simp
  simp only [connSysStep, connStep, hpc, if_pos hne, Option.some.injEq, Prod.mk.injEq] at hs
  obtain ⟨rfl, rfl⟩ := hs
  exact ⟨rfl, by simp [ConnEvent.Works]⟩

/-- The copy takes the status over. -/
theorem copy_status {srv : Server} {c c' : Conn} {st : Status} {es : List ConnEvent} (hpc : c.pc = .copy)
    (hs : connSysStep srv c (.block st .tick) = some (c', es)) :
    c'.pc = .branch ∧ ∀ e ∈ es, e.Works = false := by
  simp only [connSysStep, connStep, hpc, Option.some.injEq, Prod.mk.injEq] at hs
  obtain ⟨rfl, rfl⟩ := hs
  exact ⟨rfl, by simp [ConnEvent.Works]⟩

/-- The switch leaves the loop at an ending status of the queue. -/
theorem branch_ends {srv : Server} {c c' : Conn} {st : Status} {es : List ConnEvent} (hpc : c.pc = .branch)
    (hst : c.queue.status.Ends) (hs : connSysStep srv c (.block st .tick) = some (c', es)) :
    c'.pc.Leaving = true ∧ ∀ e ∈ es, e.Works = false := by
  simp only [connSysStep, connStep, hpc, branchTarget_ends hst, Option.some.injEq, Prod.mk.injEq] at hs
  obtain ⟨rfl, rfl⟩ := hs
  exact ⟨rfl, by simp [ConnEvent.Works]⟩

/-- **The terminating iteration.** An iteration that finds the server ending at its test (`st₁`) and at the
    copy (`st₂`), and the queue still so at the switch, neither receives nor delivers, and no iteration
    follows. In between other parties do what they like (`as₁`, `as₂`). -/
theorem terminating_iteration {srv : Server} {c c₁ c₂ : Conn} {st₁ st₂ st₃ : Status}
    {as₁ as₂ rest : List ConnAct} {tr₁ tr₂ : List ConnEvent} (hpc : c.pc = .compare) (h₁ : st₁.Ends)
    (h₂ : st₂.Ends) (hother : ∀ a ∈ as₁ ++ as₂, a.ByOther = true)
    (hrun₁ : Machine.run (connSysStep srv) c (.block st₁ .tick :: (as₁ ++ .block st₂ .tick :: as₂)) =
      some (c₁, tr₁))
    (hkept : c₁.queue.status = st₂)
    (hrun₂ : Machine.run (connSysStep srv) c₁ (.block st₃ .tick :: rest) = some (c₂, tr₂)) :
    ∀ e ∈ tr₁ ++ tr₂, e.Works = false := by
  obtain ⟨d₁, es₁, _, hs₁, hr, rfl⟩ := Machine.run_cons_iff.mp hrun₁
  obtain ⟨d₂, es₂, _, hr₁, hr', rfl⟩ := Machine.run_append_iff.mp hr
  obtain ⟨d₃, es₃, es₄, hs₃, hr₂, rfl⟩ := Machine.run_cons_iff.mp hr'
  obtain ⟨d₄, es₅, es₆, hs₅, hr₃, rfl⟩ := Machine.run_cons_iff.mp hrun₂
  have hother₁ : ∀ a ∈ as₁, a.ByOther = true := fun a ha => hother a (List.mem_append_left _ ha)
  have hother₂ : ∀ a ∈ as₂, a.ByOther = true := fun a ha => hother a (List.mem_append_right _ ha)
  obtain ⟨hpc₁, w₁⟩ := compare_ends hpc h₁ hs₁
  obtain ⟨hpc₂, w₂⟩ := run_byOther hother₁ hr₁
  obtain ⟨hpc₃, w₃⟩ := copy_status (hpc₂.trans hpc₁) hs₃
  obtain ⟨hpc₄, w₄⟩ := run_byOther hother₂ hr₂
  obtain ⟨hpc₅, w₅⟩ := branch_ends (hpc₄.trans hpc₃) (by rw [hkept]; exact h₂) hs₅
  have w₆ := run_leaving hpc₅ hr₃
  intro e he
  simp only [List.mem_append] at he
  rcases he with (h | h | h | h) | h | h
  exacts [w₁ e h, w₂ e h, w₃ e h, w₄ e h, w₅ e h, w₆ e h]

/-! ## The life cycle -/

/-- **The life cycle of a connection.** In every run from the dispatch of the block: if the block has reached
    its end its observable events follow the pattern, and an iteration that takes over an ending status of the
    server is the last one and does no work. -/
theorem connection_lifeCycle {srv : Server} {sock : Socket} {acts : List ConnAct} {c : Conn}
    {tr : List ConnEvent} (hrun : Machine.run (connSysStep srv) (Conn.start sock) acts = some (c, tr)) :
    (c.pc = .done → LifeCycle srv.handlers sock.sockfd tr) ∧
    ∀ (st₁ st₂ st₃ : Status) (as₁ as₂ rest : List ConnAct) (c₁ c₂ : Conn) (tr₁ tr₂ : List ConnEvent),
      c.pc = .compare → st₁.Ends → st₂.Ends → (∀ a ∈ as₁ ++ as₂, a.ByOther = true) →
      Machine.run (connSysStep srv) c (.block st₁ .tick :: (as₁ ++ .block st₂ .tick :: as₂)) =
        some (c₁, tr₁) →
      c₁.queue.status = st₂ →
      Machine.run (connSysStep srv) c₁ (.block st₃ .tick :: rest) = some (c₂, tr₂) →
      ∀ e ∈ tr₁ ++ tr₂, e.Works = false := by
  constructor
  · intro hpc
    have hi := lifeInv_run hrun
    have hret : tr.count .retainServer = 1 := by rw [hi.retained, hpc]; rfl
    cases hi.stage with
    | setup h _ => rw [hpc] at h; cases h
    | loop _ _ h _ _ => rw [hpc] at h; cases h
    | teardown exchange kill freed _ hex hkill hobs =>
        refine ⟨exchange, kill, freed, ?_, hex.1, hex.2, hkill, hret⟩
        rw [hobs, hpc]
        rfl
  · intro st₁ st₂ st₃ as₁ as₂ rest c₁ c₂ tr₁ tr₂ hpc h₁ h₂ hother hrun₁ hkept hrun₂
    exact terminating_iteration hpc h₁ h₂ hother hrun₁ hkept hrun₂

/-- A server with every handler set and two bytes for a message. -/
def smallServer : Server :=
  { dataSize := 2
    handlers :=
      { didConnect := true, dataHandler := true, didDisconnect := true, willSuspend := true, didResume := true,
        willKill := true, errHandler := true } }

/-- A connection up to the test of its second iteration: it has received and delivered one byte. -/
def oneMessage : List ConnAct :=
  List.replicate 9 (ConnAct.block .running .tick) ++
    [ConnAct.block .running (.recv (some [65])), .block .running (.handler 1 [65, 0]), .block .running .tick,
     .block .running .tick]

/-- Where that leaves the connection. -/
def secondTest : Conn :=
  { pc     := .compare
    s      := 1
    want   := 2
    buf    := [0, 0]
    sock   := { sockfd := 7, obj := { refCount := 1, dealloc := .freeQueue } }
    socket := { sockfd := 7, obj := { refCount := 410 } }
    queue  := { status := .running, handlers := { smallServer.handlers with errHandler := false } } }

/-- The switch of the second iteration, once the server is told to terminate. -/
def secondSwitch : Conn :=
  { secondTest with pc := .branch, queue := { secondTest.queue with status := .shouldTerminate } }

/-- A number of further steps with the server told to terminate. -/
def terminated (n : Nat) : List ConnAct := List.replicate n (.block .shouldTerminate .tick)

/-- The connection delivers one message and is then terminated: its events follow the pattern, and its last
    iteration does no work. -/
theorem connection_lifeCycle_terminated :
    (∃ c tr, Machine.run (connSysStep smallServer) (Conn.start { sockfd := 7 })
        (oneMessage ++ terminated 9) = some (c, tr) ∧ LifeCycle smallServer.handlers 7 tr) ∧
    ∃ c tr, Machine.run (connSysStep smallServer) secondSwitch (terminated 7) = some (c, tr) ∧
      c.pc = .done ∧ ∀ e ∈ [.compareStatus .shouldTerminate, .copyStatus .shouldTerminate] ++ tr,
        e.Works = false := by
  constructor
  · have hrun : Machine.run (connSysStep smallServer) (Conn.start { sockfd := 7 })
        (oneMessage ++ terminated 9) = some (_, _) := rfl
    exact ⟨_, _, hrun, (connection_lifeCycle hrun).1 rfl⟩
  · have hrun : ∃ tr, Machine.run (connSysStep smallServer) (Conn.start { sockfd := 7 }) oneMessage =
        some (secondTest, tr) := ⟨_, rfl⟩
    obtain ⟨tr, hrun⟩ := hrun
    have hrun₁ : Machine.run (connSysStep smallServer) secondTest (terminated 2) =
        some (secondSwitch, [.compareStatus .shouldTerminate, .copyStatus .shouldTerminate]) := by decide
    have hrun₂ : Machine.run (connSysStep smallServer) secondSwitch (terminated 7) = some (_, _) := rfl
    exact ⟨_, _, hrun₂, rfl, (connection_lifeCycle hrun).2 .shouldTerminate .shouldTerminate .shouldTerminate
      [] [] (terminated 6) _ _ _ _ rfl (.inl rfl) (.inl rfl) (by simp) hrun₁ rfl hrun₂⟩

end SpartanX
