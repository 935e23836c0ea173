import SpartanX.Connection.Block

/-!
# `Connection.Suspension` — what a granted suspend request stops

A granted `SXSuspendObject(queue)` puts a suspension in force, the next granted `SXResumeObject(queue)` ends
it (`suspension`). The running branch does not read the status between its `recv` and the data handler, so a
request that lands while it receives does not stop the message that then arrives
(`suspend_while_receiving`). The condition under which nothing received in suspension is delivered is a
condition on when requests and writes to the status land (`SuspensionKept`).

## Contents
- **Suspension.** `suspension`, `DeliveryStops`, `SuspensionKept`.
- **Step and run.** `SuspInv`, `suspInv_move`, `suspInv_step`, `suspension_stops_delivery`.
-/

namespace SpartanX

/-! ## Suspension -/

/-- Whether a granted suspend request is in force, and whether it was when the last message arrived. -/
structure Suspension where
  inForce : Bool := false
  held    : Bool := false
  deriving DecidableEq, Repr

/-- The suspension after one more event. -/
def Suspension.note (w : Suspension) : ConnEvent → Suspension
  | .suspendQueue err => if err = sxSuccess then { w with inForce := true } else w
  | .resumeQueue err  => if err = sxSuccess then { w with inForce := false } else w
  | .recv _ (some _)  => { w with held := w.inForce }
  | _                 => w

/-- The suspension after a trace. -/
def suspension (tr : List ConnEvent) : Suspension := tr.foldl Suspension.note {}

/-- The return of a `recv` with a message. -/
def ConnEvent.IsReceipt : ConnEvent → Bool
  | .recv _ (some _) => true
  | _ => false

/-- A call of the data handler. -/
def ConnEvent.IsDelivery : ConnEvent → Bool
  | .dataHandler .. => true
  | _ => false

/-- No message that arrived while a suspension was in force is handed to the data handler. -/
def DeliveryStops (tr : List ConnEvent) : Prop :=
  ∀ pre st bs mid buf len ret post,
    tr = pre ++ .recv st (some bs) :: (mid ++ .dataHandler buf len ret :: post) →
    (∀ e ∈ mid, e.IsReceipt = false) → (suspension pre).inForce = false

/-- The condition on the acts around a connection: no suspend request is granted between the jump into the
    running branch and the return of its `recv`, or before the write of `running` in the resuming branch; no
    resume request is granted between the `recv` of a message that arrived in suspension and the reading of the
    status after it; and while a suspension is in force neither another party nor the copy of the server's
    status makes the queue running or resuming. -/
def SuspensionKept (tr : List ConnEvent) (c : Conn) : ConnAct → Prop
  | .suspend      => c.queue.status = .idle ∨ c.queue.status = .running →
    c.pc ≠ .callRecv ∧ c.pc ≠ .recv ∧ c.pc ≠ .setRunning
  | .resume       => (suspension tr).held = true → c.queue.status = .suspend ∨ c.queue.status = .idle →
    c.pc ≠ .reread
  | .setStatus st => (suspension tr).inForce = true → ¬ st.Delivers
  | .block st _   => (suspension tr).inForce = true → c.pc = .copy → ¬ st.Delivers

instance (tr : List ConnEvent) (c : Conn) : (a : ConnAct) → Decidable (SuspensionKept tr c a)
  | .suspend      => inferInstanceAs (Decidable (_ → _))
  | .resume       => inferInstanceAs (Decidable (_ → _))
  | .setStatus st => inferInstanceAs (Decidable (_ → ¬ st.Delivers))
  | .block st _   => inferInstanceAs (Decidable (_ → _ → ¬ st.Delivers))

theorem suspension_append (tr es : List ConnEvent) :
    suspension (tr ++ es) = es.foldl Suspension.note (suspension tr) :=
  List.foldl_append

/-- An event that neither changes a suspension nor is a message or a delivery. -/
def ConnEvent.Neutral (e : ConnEvent) : Prop := (∀ w : Suspension, w.note e = w) ∧ e.IsDelivery = false

theorem suspension_neutral {es : List ConnEvent} (tr : List ConnEvent) (hes : ∀ e ∈ es, e.Neutral) :
    suspension (tr ++ es) = suspension tr := by
  rw [suspension_append]
  exact Machine.foldl_unchanged fun e he => (hes e he).1 _

/-- Without a message in between, `held` tells whether the suspension was in force at the last message. -/
theorem held_of_no_receipt (w : Suspension) {mid : List ConnEvent} (hmid : ∀ e ∈ mid, e.IsReceipt = false) :
    (mid.foldl Suspension.note w).held = w.held := by
  induction mid generalizing w with
  | nil => rfl
  | cons e mid ih =>
      have he := hmid e List.mem_cons_self
      have hnote : (w.note e).held = w.held := by
        unfold Suspension.note
        split
        · split <;> rfl
        · split <;> rfl
        · cases he
        · rfl
      rw [List.foldl_cons, ih _ (fun e' h => hmid e' (List.mem_cons_of_mem e h)), hnote]

/-- At every call of the data handler the last message had arrived outside suspension. -/
def NoneHeld : List ConnEvent → Prop :=
  Machine.EachEvent fun pre e => e.IsDelivery = true → (suspension pre).held = false

theorem NoneHeld.deliveryStops {tr : List ConnEvent} (h : NoneHeld tr) : DeliveryStops tr := by
  intro pre st bs mid buf len ret post htr hmid
  have hheld := h (pre ++ .recv st (some bs) :: mid) (.dataHandler buf len ret) post
    (by rw [htr, List.append_assoc, List.cons_append]) rfl
  rw [suspension_append, List.foldl_cons, held_of_no_receipt _ hmid] at hheld
  exact hheld

/-- Events that deliver nothing extend a trace. -/
theorem NoneHeld.append {tr es : List ConnEvent} (h : NoneHeld tr) (hes : ∀ e ∈ es, e.IsDelivery = false) :
    NoneHeld (tr ++ es) := by
  refine Machine.EachEvent.append h (Machine.eachEvent_of_forall ?_)
  intro e he pre hdel
  rw [hes e he] at hdel
  cases hdel

/-- A delivery of a message that arrived outside suspension extends a trace. -/
theorem NoneHeld.deliver {tr : List ConnEvent} (h : NoneHeld tr) (hheld : (suspension tr).held = false)
    (e : ConnEvent) : NoneHeld (tr ++ [e]) := by
  apply Machine.EachEvent.concat h
  intro _
  exact hheld

/-! ## The invariant -/

/-- The program points in the running branch up to the return of its `recv`, and before the write of `running`
    in the resuming branch. -/
def ConnPc.Deaf : ConnPc → Bool
  | .callRecv | .recv | .setRunning => true
  | _ => false

/-- The invariant: a suspension in force is written in the queue's status and the block is not deaf to it; a
    message held back is still held back when the status is read again, and none has been when the data
    handler is called. -/
structure SuspInv (c : Conn) (tr : List ConnEvent) : Prop where
  fresh    : c.pc = .create → (suspension tr).inForce = false
  written  : (suspension tr).inForce = true → ¬ c.queue.status.Delivers ∧ c.pc.Deaf = false
  rereads  : c.pc = .reread → (suspension tr).held = true → (suspension tr).inForce = true
  delivers : c.pc = .handle ∨ c.pc = .handleSuspended → (suspension tr).held = false
  none     : NoneHeld tr

section Move

variable {srv : Server} {c c' : Conn} {i : Input} {tr es : List ConnEvent}

/-- A neutral step keeps the invariant if the block is not deaf after it, or no suspension is in force, and it
    does not lead to the data handler. -/
theorem SuspInv.neutral (hi : SuspInv c tr) (hes : ∀ e ∈ es, e.Neutral) (hfresh : c'.pc ≠ .create)
    (hwritten : (suspension tr).inForce = true → ¬ c.queue.status.Delivers → c.pc.Deaf = false →
      ¬ c'.queue.status.Delivers ∧ c'.pc.Deaf = false)
    (hreread : c'.pc ≠ .reread) (hdel : c'.pc ≠ .handle ∧ c'.pc ≠ .handleSuspended) :
    SuspInv c' (tr ++ es) := by
  have hsus := suspension_neutral tr hes
  refine ⟨fun h => absurd h hfresh, ?_, fun h => absurd h hreread, ?_, ?_⟩
  · intro h
    rw [hsus] at h
    exact hwritten h (hi.written h).1 (hi.written h).2
  · rintro (h | h)
    · exact absurd h hdel.1
    · exact absurd h hdel.2
  · exact hi.none.append fun e he => (hes e he).2

/-- **The invariant survives every move** that does not copy `running` or `resuming` into a suspension. -/
theorem suspInv_move (hm : ConnMove srv c i c' es) (hi : SuspInv c tr)
    (hkept : (suspension tr).inForce = true → c.pc = .copy → ¬ srv.status.Delivers) :
    SuspInv c' (tr ++ es) := by
  have hone {e : ConnEvent} (he : e.Neutral) : ∀ e' ∈ [e], e'.Neutral := by simpa using he
  cases hm with
  | create hpc =>
      refine hi.neutral (hone ⟨fun _ => rfl, rfl⟩) (by simp) ?_ (by simp) (by simp)
      intro h
      rw [hi.fresh hpc] at h
      cases h
  | copy hpc =>
      refine hi.neutral (hone ⟨fun _ => rfl, rfl⟩) (by simp) ?_ (by simp) (by simp)
      intro h _ _
      exact ⟨hkept h hpc, rfl⟩
  | branchRunning hpc hs | branchResuming hpc hs =>
      -- the switch jumps there only outside suspension
      refine hi.neutral (hone ⟨fun _ => rfl, rfl⟩) (by simp) ?_ (by simp) (by simp)
      intro _ h _
      exact absurd (by simp [Status.Delivers, hs]) h
  | callRecv hpc | setRunning hpc =>
      refine hi.neutral (by simp [ConnEvent.Neutral, Suspension.note, ConnEvent.IsDelivery]) (by simp)
        ?_ (by simp) (by simp)
      intro _ _ h
      rw [hpc] at h
      cases h
  | recv hpc bs hok =>
      have hout : (suspension tr).inForce = false := by
        cases h : (suspension tr).inForce with
        | false => rfl
        | true =>
            have hdeaf := (hi.written h).2
            rw [hpc] at hdeaf
            cases hdeaf
      have hsus : suspension (tr ++ [ConnEvent.recv .running (some bs)]) =
          { suspension tr with held := false } := by
        rw [suspension_append, ← hout]
        rfl
      refine ⟨by simp, ?_, by simp, ?_, hi.none.append (by simp [ConnEvent.IsDelivery])⟩
      · intro h
        rw [hsus] at h
        exact absurd h (by simp [hout])
      · intro _
        rw [hsus]
  | recvSuspended hpc bs hok hne | recvSuspendedEmpty hpc =>
      have hsus {bs : List Byte} : suspension (tr ++ [ConnEvent.recv .suspend (some bs)]) =
          { suspension tr with held := (suspension tr).inForce } := by
        rw [suspension_append]
        rfl
      refine ⟨by simp, ?_, ?_, by simp, hi.none.append (by simp [ConnEvent.IsDelivery])⟩
      · intro h
        rw [hsus] at h
        exact ⟨(hi.written h).1, rfl⟩
      · intro _ h
        rw [hsus] at h ⊢
        exact h
  | rereadDelivers hpc hs =>
      have hheld : (suspension tr).held = false := by
        cases h : (suspension tr).held with
        | false => rfl
        | true => exact absurd hs (hi.written (hi.rereads hpc h)).1
      have hsus := suspension_neutral tr (hone (e := .reread c.queue.status) ⟨fun _ => rfl, rfl⟩)
      refine ⟨by simp, ?_, by simp, ?_, hi.none.append (by simp [ConnEvent.IsDelivery])⟩
      · intro h
        rw [hsus] at h
        exact ⟨(hi.written h).1, rfl⟩
      · intro _
        rw [hsus]
        exact hheld
  | handle hpc ret buf | handleSuspended hpc ret buf =>
      have hheld := hi.delivers (by simp [hpc])
      have hsus {buf : List Byte} {len ret : CInt.SizeT} :
          suspension (tr ++ [ConnEvent.dataHandler buf len ret]) = suspension tr := by
        rw [suspension_append]
        rfl
      refine ⟨by simp, ?_, by simp, by simp, hi.none.deliver hheld _⟩
      intro h
      rw [hsus] at h
      exact ⟨(hi.written h).1, rfl⟩
  | didConnect hpc | didResume hpc | willSuspend hpc | willKill hpc | didDisconnect hpc =>
      exact hi.neutral (forall_mem_callIf ⟨fun _ => rfl, rfl⟩ _) (by simp) (fun _ h _ => ⟨h, rfl⟩) (by simp) (by simp)
  | _ hpc =>
      exact hi.neutral (by simp [ConnEvent.Neutral, Suspension.note, ConnEvent.IsDelivery]) (by simp)
        (fun _ h _ => ⟨h, rfl⟩) (by simp) (by simp)

end Move

/-! ## Runs -/

/-- A suspend request keeps the invariant if it does not land on a deaf block. -/
theorem SuspInv.suspend {srv : Server} {c c' : Conn} {tr es : List ConnEvent} (hi : SuspInv c tr)
    (hkept : SuspensionKept tr c .suspend) (hs : connSysStep srv c .suspend = some (c', es)) :
    SuspInv c' (tr ++ es) := by
  simp only [connSysStep] at hs
  split at hs
  · cases hs
  rename_i hpc
  cases hs
  rcases c.queue.suspendObject_spec with ⟨hst, h⟩ | ⟨_, err, herr, h⟩ <;> rw [h]
  · have hsus : suspension (tr ++ [ConnEvent.suspendQueue sxSuccess]) = { suspension tr with inForce := true } := by
      rw [suspension_append]
      rfl
    have hdeaf := hkept (by simpa using hst)
    refine ⟨fun h => absurd h hpc, fun _ => ⟨by simp [Status.Delivers], ?_⟩, fun _ _ => by rw [hsus],
      ?_, hi.none.append (by simp [ConnEvent.IsDelivery])⟩
    · cases hp : c.pc <;> simp_all [ConnPc.Deaf]
    · intro h
      rw [hsus]
      exact hi.delivers h
  · have hsus : suspension (tr ++ [ConnEvent.suspendQueue err]) = suspension tr := by
      rw [suspension_append]
      exact if_neg herr
    refine ⟨fun h => absurd h hpc, ?_, ?_, ?_, hi.none.append (by simp [ConnEvent.IsDelivery])⟩ <;> rw [hsus]
    exacts [hi.written, hi.rereads, hi.delivers]

/-- A resume request keeps the invariant if it does not land between a suspended `recv` and the reading of the
    status after it. -/
theorem SuspInv.resume {srv : Server} {c c' : Conn} {tr es : List ConnEvent} (hi : SuspInv c tr)
    (hkept : SuspensionKept tr c .resume) (hs : connSysStep srv c .resume = some (c', es)) :
    SuspInv c' (tr ++ es) := by
  simp only [connSysStep] at hs
  split at hs
  · cases hs
  rename_i hpc
  cases hs
  rcases c.queue.resumeObject_spec with ⟨hst, h⟩ | ⟨_, err, herr, h⟩ <;> rw [h]
  · have hsus : suspension (tr ++ [ConnEvent.resumeQueue sxSuccess]) = { suspension tr with inForce := false } := by
      rw [suspension_append]
      rfl
    refine ⟨fun h => absurd h hpc, ?_, ?_, ?_,
      hi.none.append (by simp [ConnEvent.IsDelivery])⟩
    · intro h
      rw [hsus] at h
      cases h
    · intro hre h
      rw [hsus] at h
      exact absurd hre (hkept h (by simpa using hst))
    · intro h
      rw [hsus]
      exact hi.delivers h
  · have hsus : suspension (tr ++ [ConnEvent.resumeQueue err]) = suspension tr := by
      rw [suspension_append]
      exact if_neg herr
    refine ⟨fun h => absurd h hpc, ?_, ?_, ?_, hi.none.append (by simp [ConnEvent.IsDelivery])⟩ <;> rw [hsus]
    exacts [hi.written, hi.rereads, hi.delivers]

/-- The invariant survives every act that meets the condition. -/
theorem suspInv_step {srv : Server} {c c' : Conn} {tr es : List ConnEvent} {a : ConnAct} (hi : SuspInv c tr)
    (hkept : SuspensionKept tr c a) (hs : connSysStep srv c a = some (c', es)) : SuspInv c' (tr ++ es) := by
  cases a with
  | block st i => exact suspInv_move (connStep_move hs) hi hkept
  | suspend => exact hi.suspend hkept hs
  | resume => exact hi.resume hkept hs
  | setStatus st =>
      simp only [connSysStep] at hs
      split at hs
      · cases hs
      rename_i hpc
      cases hs
      have hsus : suspension (tr ++ [ConnEvent.setQueueStatus st]) = suspension tr := by
        rw [suspension_append]
        rfl
      refine ⟨fun h => absurd h hpc, ?_, ?_, ?_, hi.none.append (by simp [ConnEvent.IsDelivery])⟩ <;> rw [hsus]
      exacts [fun h => ⟨hkept h, (hi.written h).2⟩, hi.rereads, hi.delivers]

/-- **Suspension stops delivery**, in every run whose acts meet the condition. -/
theorem suspension_stops_delivery {srv : Server} {sock : Socket} {acts : List ConnAct} {c : Conn}
    {tr : List ConnEvent} (hrun : Machine.run (connSysStep srv) (Conn.start sock) acts = some (c, tr))
    (hkept : Machine.Guarded (connSysStep srv) SuspensionKept [] (Conn.start sock) acts) :
    DeliveryStops tr := by
  have h0 : SuspInv (Conn.start sock) [] :=
    ⟨fun _ => rfl, nofun, nofun, fun _ => rfl, Machine.eachEvent_nil _⟩
  have hstep (c₁ : Conn) (tr₁ : List ConnEvent) (a : ConnAct) (c₂ : Conn) (es : List ConnEvent)
      (hi : SuspInv c₁ tr₁) (hk : SuspensionKept tr₁ c₁ a) (hs : connSysStep srv c₁ a = some (c₂, es)) :
      SuspInv c₂ (tr₁ ++ es) := suspInv_step hi hk hs
  have hi := Machine.run_invariant_of_guarded hstep h0 hkept hrun
  rw [List.nil_append] at hi
  exact hi.none.deliveryStops

/-- A connection that is suspended while its handler runs, drops a message, is resumed and delivers the next. -/
def suspendedInHandler : List ConnAct :=
  List.replicate 9 (ConnAct.block .running .tick) ++
  [ConnAct.block .running (.recv (some [1])), .suspend, .block .running (.handler 1 [0])] ++
  List.replicate 6 (ConnAct.block .running .tick) ++
  [ConnAct.block .running (.recv (some [2])), .block .running .tick, .resume] ++
  List.replicate 11 (ConnAct.block .running .tick) ++
  [ConnAct.block .running (.recv (some [3])), .block .running (.handler 1 [0])]

/-- Its acts meet the condition. -/
theorem suspension_stops_delivery_inHandler :
    ∃ c tr, Machine.run (connSysStep { dataSize := 1, handlers := { dataHandler := true } })
        (Conn.start {}) suspendedInHandler = some (c, tr) ∧ DeliveryStops tr := by
  have hrun : Machine.run (connSysStep { dataSize := 1, handlers := { dataHandler := true } })
      (Conn.start {}) suspendedInHandler = some (_, _) := rfl
  exact ⟨_, _, hrun, suspension_stops_delivery hrun (by decide +kernel)⟩

/-- **A suspend request that lands while the running branch receives** is granted, and the message that arrives
    after it is delivered all the same. -/
theorem suspend_while_receiving :
    ∃ (srv : Server) (sock : Socket) (acts : List ConnAct) (c : Conn) (tr : List ConnEvent),
      Machine.run (connSysStep srv) (Conn.start sock) acts = some (c, tr) ∧
        .suspendQueue sxSuccess ∈ tr ∧ ¬ DeliveryStops tr := by
  have hrun : Machine.run (connSysStep { dataSize := 1, handlers := { dataHandler := true } }) (Conn.start {})
      (List.replicate 9 (.block .running .tick) ++
        [.suspend, .block .running (.recv (some [7])), .block .running (.handler 1 [7])]) =
      some (_, [.createQueue, .accessServer, .retainServer, .accessServer, .allocBuf, .accessServer, .iterate,
        .compareStatus .running, .branch .running, .accessServer, .suspendQueue sxSuccess,
        .recv .running (some [7]), .dataHandler [7] 1 1]) := rfl
  refine ⟨_, _, _, _, _, hrun, by simp, ?_⟩
  intro h
  have hout := h (.createQueue :: [.accessServer, .retainServer, .accessServer, .allocBuf, .accessServer,
    .iterate, .compareStatus .running, .branch .running, .accessServer, .suspendQueue sxSuccess])
    .running [7] [] [7] 1 1 [] rfl (by simp)
  exact absurd hout (by decide)

end SpartanX
