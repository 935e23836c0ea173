import SpartanX.Connection.Stream
import SpartanX.Kqueue.Move

/-!
# `Kqueue.Delivery` — what reaches the data handler under `SXServerStart_kqueue`

The event loop declares its buffer, `s` and `suspended` anew for every event, initialises only the buffer, and lets
the case of a suspended connection run on into the next one. What it hands to the data handler is the same as under
`SXServerStart` all the same: for the stream of messages the handling of an event is a connection block that stands
at the corresponding statement (`Handling.asConn`), and its moves keep the invariant of such a block
(`kqStream_move`). So the messages of all connections reach the handler in the order in which they were received,
each once, whatever the uninitialised variables hold (`kq_deliveries_eq_receipts`).
-/

namespace SpartanX

open CInt

/-! ## The handling as a connection block -/

/-- The statement of a connection block that the statement of a handling corresponds to. The buffer of a handling
    comes to be in its first statement. -/
def HandlingPc.asConnPc : HandlingPc → ConnPc
  | .clear             => .alloc
  | .compare           => .compare
  | .copy              => .copy
  | .branch            => .branch
  | .callRecv          => .callRecv
  | .recv              => .recv
  | .handle            => .handle
  | .setRunning        => .setRunning
  | .didResume         => .didResume
  | .willSuspend       => .willSuspend
  | .callRecvSuspended => .callRecvSuspended
  | .recvSuspended     => .recvSuspended
  | .reread            => .reread
  | .handleSuspended   => .handleSuspended
  | .willKill          => .willKill
  | .test              => .test
  | .close             => .close
  | .releaseQueue      => .releaseQueue
  | .didDisconnect     => .didDisconnect
  | .decCount          => .decCount
  | .kept              => .done
  | .closed            => .done

/-- The variables of a handling that have to do with its buffer, as those of a connection block. -/
def Handling.asConn (h : Handling) : Conn :=
  { pc := h.pc.asConnPc, s := h.s, len := h.len, want := h.want, buf := h.buf }

/-- The events of the handlings, in order. -/
def SysEvent.ofHandling : SysEvent → Option ConnEvent
  | .handling e => some e
  | _           => none

/-- The trace of the handlings. -/
def handlingEvents (tr : List SysEvent) : List ConnEvent := tr.filterMap SysEvent.ofHandling

/-- The call of the data handler that the event loop stands at, if it stands at one. -/
def Kq.pending (s : Kq) : List (List Byte × SizeT) := if s.pc = .handling then s.cur.asConn.pending else []

theorem handlingEvents_append (tr es : List SysEvent) :
    handlingEvents (tr ++ es) = handlingEvents tr ++ handlingEvents es :=
  List.filterMap_append

theorem handlingEvents_map (ces : List ConnEvent) : handlingEvents (ces.map .handling) = ces := by
  unfold handlingEvents
  rw [List.filterMap_map]
  exact List.filterMap_some ..

/-! ## A step of a handling -/

section Move

variable {srv : Server} {h h' : Handling} {ces tr : List ConnEvent}

/-- The invariant of the buffer survives every move. -/
theorem bufferInv_handling (hm : HandlingMove srv h h' ces) (hb : BufferInv srv.dataSize h.asConn) :
    BufferInv srv.dataSize h'.asConn := by
  have hlength {pc : HandlingPc} (hpc : h.pc = pc) (hat : pc ≠ .clear) : h.buf.length = srv.dataSize.toNat := by
    refine hb.length ?_
    show h.pc.asConnPc.Allocated = true
    rw [hpc]
    cases pc <;> first | rfl | exact absurd rfl hat
  have hclear {pc : HandlingPc} (hpc : h.pc = pc) (hat : pc.asConnPc.Cleared = true) :
      h.buf = List.replicate srv.dataSize.toNat 0 := by
    refine hb.cleared ?_
    show h.pc.asConnPc.Cleared = true
    rw [hpc, hat]
  cases hm with
  | clear _ => exact ⟨fun _ => List.length_replicate, fun _ => rfl, nofun⟩
  -- the buffer stays clear
  | compareRunning hpc | compareOther hpc | copy hpc | branchRunning hpc | branchSuspend hpc | willSuspend hpc =>
      exact ⟨fun _ => hlength hpc (by simp), fun _ => hclear hpc rfl, nofun⟩
  | callRecv hpc | callRecvSuspended hpc =>
      exact ⟨fun _ => hlength hpc (by simp), fun _ => hclear hpc rfl, fun _ => rfl⟩
  -- the buffer is written, in its length
  | recv hpc bs hok | recvSuspended hpc bs hok =>
      have hrec := hb.received (by simp [Handling.asConn, hpc, HandlingPc.asConnPc, ConnPc.Receiving]) hok
      refine ⟨fun _ => ?_, nofun, nofun⟩
      show (bs ++ h.buf.drop bs.length).length = _
      rw [show bs ++ h.buf.drop bs.length = _ from (Prod.mk.inj hrec.1).1, List.length_append,
        List.length_replicate]
      omega
  | handleFails hpc _ hlen | handle hpc _ _ hlen | handleSuspended hpc _ _ hlen =>
      exact ⟨fun _ => hlen.trans (hlength hpc (by simp)), nofun, nofun⟩
  -- the buffer is left alone
  | _ hpc => exact ⟨fun _ => hlength hpc (by simp), nofun, nofun⟩

/-- What a handling says that has nothing to do with the stream. -/
theorem quiet_callIf {isSet : Bool} {e : ConnEvent} (he : e.Quiet) :
    ∀ e' ∈ .accessServer :: callIf isSet e, e'.Quiet := by
  intro e' he'
  rcases List.mem_cons.mp he' with rfl | he'
  · exact ⟨fun _ => rfl, rfl⟩
  · exact forall_mem_callIf he isSet e' he'

/-- **The invariant of the stream survives every move of a handling.** -/
theorem kqStream_move (hm : HandlingMove srv h h' ces) (hi : StreamInv srv.dataSize h.asConn tr) :
    StreamInv srv.dataSize h'.asConn (tr ++ ces) := by
  have hb := bufferInv_handling hm hi.buffer
  have hpass (hq : ∀ e ∈ ces, e.Quiet) (hpc : h.pc ≠ .handle ∧ h.pc ≠ .handleSuspended)
      (hpc' : h'.pc ≠ .handle ∧ h'.pc ≠ .handleSuspended ∧ h'.pc ≠ .reread) :
      StreamInv srv.dataSize h'.asConn (tr ++ ces) := by
    refine hi.pass hb hq ?_ ?_ ?_
    · cases hat : h.pc <;> simp_all [Handling.asConn, HandlingPc.asConnPc, Conn.pending]
    · cases hat : h'.pc <;> simp_all [Handling.asConn, HandlingPc.asConnPc, Conn.pending]
    · cases hat : h'.pc <;> simp_all [Handling.asConn, HandlingPc.asConnPc]
  have hpend {pc : HandlingPc} (hpc : h.pc = pc) (hne : pc ≠ .handle ∧ pc ≠ .handleSuspended) :
      h.asConn.pending = [] := by
    cases pc <;> simp_all [Handling.asConn, HandlingPc.asConnPc, Conn.pending]
  -- the loop reads the handler from the server before it calls it
  have haccess : StreamInv srv.dataSize h.asConn (tr ++ [.accessServer]) :=
    hi.quiet hi.buffer (by simp [ConnEvent.Quiet, note, ConnEvent.delivery]) rfl fun hre => ⟨hre, rfl, rfl⟩
  have hsplit (e : ConnEvent) : tr ++ [.accessServer, e] = tr ++ [.accessServer] ++ [e] := by simp
  cases hm with
  | recv hpc bs hok =>
      have hrec := hi.buffer.received (by simp [Handling.asConn, hpc, HandlingPc.asConnPc, ConnPc.Receiving]) hok
      refine hi.receive hb (hpend hpc (by simp)) ?_ hrec.2 (fun hre => by cases hre)
      rw [← hrec.1]
      rfl
  | recvSuspended hpc bs hok hne =>
      have hrec := hi.buffer.received (by simp [Handling.asConn, hpc, HandlingPc.asConnPc, ConnPc.Receiving]) hok
      refine hi.receive hb (hpend hpc (by simp)) ?_ hrec.2 (fun _ => ⟨rfl, hne, hrec.1⟩)
      simp [Handling.asConn, HandlingPc.asConnPc, Conn.pending, Receipt.Delivered]
  | recvSuspendedEmpty hpc =>
      exact hi.receive hb (hpend hpc (by simp)) rfl (by simp) (fun hre => by cases hre)
  | handleFails hpc buf | handle hpc ret buf =>
      rw [hsplit]
      exact haccess.deliver hb (by simp [Handling.asConn, hpc, HandlingPc.asConnPc, Conn.pending]) rfl
        fun hre => by cases hre
  | handleSuspended hpc ret buf =>
      rw [hsplit]
      exact haccess.deliver hb (by simp [Handling.asConn, hpc, HandlingPc.asConnPc, Conn.pending]) rfl
        fun hre => by cases hre
  | rereadEnds hpc hs =>
      refine hi.decide hb (by simp [Handling.asConn, hpc, HandlingPc.asConnPc]) (fun h => by cases h) ?_
      rcases hs with hs | hs <;> rw [hs] <;> rfl
  | rereadDelivers hpc hs =>
      refine hi.decide hb (by simp [Handling.asConn, hpc, HandlingPc.asConnPc]) (fun h => by cases h) ?_
      rw [if_pos (Or.comm.mp hs)]
      rfl
  | rereadFalls hpc _ hs =>
      refine hi.decide hb (by simp [Handling.asConn, hpc, HandlingPc.asConnPc]) (fun h => by cases h) ?_
      rw [if_neg (mt Or.comm.mp hs)]
      rfl
  | didResume hpc | willKill hpc | didDisconnect hpc =>
      exact hpass (quiet_callIf ⟨fun _ => rfl, rfl⟩) (by simp [hpc]) (by simp)
  | willSuspend hpc =>
      refine hpass ?_ (by simp [hpc]) (by simp)
      split
      · simp
      · exact quiet_callIf ⟨fun _ => rfl, rfl⟩
  | _ hpc => exact hpass (by simp [ConnEvent.Quiet, note, ConnEvent.delivery]) (by simp [hpc]) (by simp)

end Move

/-! ## Runs -/

/-- The invariant: the data size is that of the start, the handlings keep the invariant of the stream, and outside a
    handling no call is pending. -/
structure KqStreamInv (dataSize : SizeT) (s : Kq) (tr : List SysEvent) : Prop where
  size    : s.server.dataSize = dataSize
  stream  : StreamInv dataSize s.cur.asConn (handlingEvents tr)
  outside : s.pc ≠ .handling → s.cur.asConn.pending = [] ∧ s.cur.pc ≠ .reread

section Run

variable {calls : SocketCalls} {dataSize : SizeT} {s s' : Kq} {tr es : List SysEvent}

/-- A step without a word about the stream. -/
theorem KqStreamInv.pass (hi : KqStreamInv dataSize s tr) (hsize : s'.server.dataSize = s.server.dataSize)
    (hes : ∀ e ∈ handlingEvents es, e.Quiet) (hcur : ∃ q, s'.cur = { s.cur with queue := q })
    (hpc : s'.pc = .handling ↔ s.pc = .handling) : KqStreamInv dataSize s' (tr ++ es) := by
  obtain ⟨q, hcur⟩ := hcur
  have hview : s'.cur.asConn = s.cur.asConn := by rw [hcur]; rfl
  refine ⟨hsize.trans hi.size, ?_, ?_⟩
  · rw [handlingEvents_append, hview]
    exact hi.stream.quiet hi.stream.buffer hes rfl fun hre => ⟨hre, rfl, rfl⟩
  · intro hout
    rw [hview, hcur]
    exact hi.outside (mt hpc.mpr hout)

/-- A move of the loop. -/
theorem KqLoopMove.stream {i : KqInput} (hm : KqLoopMove s i s' es) (hi : KqStreamInv dataSize s tr) :
    KqStreamInv dataSize s' (tr ++ es) := by
  have hhandle {h : Handling} {ces : List ConnEvent} (hm : HandlingMove s.server s.cur h ces) :
      StreamInv dataSize h.asConn (handlingEvents (tr ++ ces.map .handling)) := by
    have hstream := hi.stream
    rw [handlingEvents_append, handlingEvents_map]
    rw [← hi.size] at hstream ⊢
    exact kqStream_move hm hstream
  -- away from the handlings there is no word about the stream
  have hpass (hsize : s'.server.dataSize = s.server.dataSize) (hes : es = [.access] ∨ es = [] ∨ es = [.dispatched])
      (hcur : s'.cur = s.cur) (hpc : s.pc ≠ .handling) (hpc' : s'.pc ≠ .handling) :
      KqStreamInv dataSize s' (tr ++ es) := by
    refine hi.pass hsize ?_ ⟨s.cur.queue, hcur⟩ (iff_of_false hpc' hpc)
    rcases hes with rfl | rfl | rfl <;> exact fun e he => (List.not_mem_nil he).elim
  cases hm with
  | start _ hpc pc hpc' _ _ hes =>
      exact hpass rfl (hes.imp_right .inl) rfl (KqPc.Starting.away hpc).1 (KqPc.Starting.away hpc').1
  | go _ hpc pc hpc' _ _ hes =>
      exact hpass rfl (hes.imp_right .inl) rfl (KqPc.Passing.away (.inl hpc)).1.1 (KqPc.Passing.away hpc').1.1
  | begin hpc ident batch _ r _ _ junk suspended =>
      obtain ⟨hpending, _⟩ := hi.outside (by rw [hpc]; simp)
      refine ⟨hi.size, ?_, fun hout => absurd rfl hout⟩
      rw [handlingEvents_append]
      exact hi.stream.pass ⟨nofun, nofun, nofun⟩ (fun e he => (List.not_mem_nil he).elim) hpending rfl nofun
  | keep hpc _ h ces hm hkept =>
      exact ⟨hi.size, hhandle hm, fun _ => by simp [Handling.asConn, hkept, HandlingPc.asConnPc, Conn.pending]⟩
  | close hpc _ h ces hm hclosed =>
      exact ⟨hi.size, hhandle hm, fun _ => by simp [Handling.asConn, hclosed, HandlingPc.asConnPc, Conn.pending]⟩
  | handle hpc _ h ces hm => exact ⟨hi.size, hhandle hm, fun hout => absurd hpc hout⟩
  | _ hpc => exact hpass rfl (by simp) rfl (by simp [hpc]) (by simp)

/-- A step of a started server that does not deallocate it. -/
theorem kqStream_step {a : KqAct} (hi : KqStreamInv dataSize s tr) (hs : kqStep calls s a = some (s', es))
    (hlive : .freed ∉ es) : KqStreamInv dataSize s' (tr ++ es) := by
  by_cases ha : ∃ i, a = .loop i
  · obtain ⟨i, rfl⟩ := ha
    exact (kqLoopStep_loopMove hs).stream hi
  · have haside := kqStep_aside (fun i h => ha ⟨i, h⟩) hs
    obtain ⟨st, hcur⟩ := haside.cur
    refine hi.pass (kqStep_server hs hlive).1 ?_ ⟨_, hcur⟩ (by rw [haside.pc])
    intro e he
    obtain ⟨se, hse, heq⟩ := List.mem_filterMap.mp he
    rcases haside.events se hse with rfl | ⟨ce, rfl, hce⟩
    · cases heq
    · cases heq
      cases e <;> first | exact ⟨fun _ => rfl, rfl⟩ | cases hce

/-- **Stream integrity of the event loop.** In every run of a server started by `SXServerStart_kqueue`, until the
    server is deallocated: what the data handler has been given, and what it is about to be given, are the delivered
    receipts of all connections, in the order of their `recv`, each with its own bytes in an otherwise clear buffer
    and with its own length. -/
theorem kq_deliveries_eq_receipts {server : Server} {s₀ : Kq} {acts : List KqAct}
    (hstart : sxServerStartKqueue server = some (sxSuccess, some s₀))
    (hrun : Machine.run (kqStep calls) s₀ acts = some (s, tr)) (hlive : .freed ∉ tr) :
    deliveries (handlingEvents tr) ++ s.pending =
      ((receipts (handlingEvents tr)).filter Receipt.Delivered).map (fun r => payload server.dataSize r.bytes) ∧
    ∀ r ∈ receipts (handlingEvents tr), r.bytes.length ≤ server.dataSize.toNat ∧
      (payload server.dataSize r.bytes).2.toNat = r.bytes.length := by
  have h0 : .freed ∉ ([] : List SysEvent) → KqStreamInv server.dataSize s₀ [] := by
    intro _
    rw [sxServerStartKqueue_spec hstart]
    exact ⟨rfl, ⟨⟨nofun, nofun, nofun⟩, rfl, by simp [receipts, handlingEvents], nofun⟩, fun _ => ⟨rfl, nofun⟩⟩
  have hstep (s₁ : Kq) (tr₁ : List SysEvent) (a : KqAct) (s₂ : Kq) (es : List SysEvent)
      (hi : .freed ∉ tr₁ → KqStreamInv server.dataSize s₁ tr₁) (hs : kqStep calls s₁ a = some (s₂, es)) :
      .freed ∉ tr₁ ++ es → KqStreamInv server.dataSize s₂ (tr₁ ++ es) := by
    intro hnone
    obtain ⟨htr, hes⟩ := not_or.mp (mt List.mem_append.mpr hnone)
    exact kqStream_step (hi htr) hs hes
  have hlater := Machine.run_invariant (I := fun s tr => .freed ∉ tr → KqStreamInv server.dataSize s tr)
    hstep h0 hrun
  have hi : KqStreamInv server.dataSize s tr := hlater hlive
  refine ⟨?_, ?_⟩
  · rw [← hi.stream.settled, Kq.pending]
    split
    · rfl
    · next hout => rw [(hi.outside hout).1]
  · intro r hr
    obtain ⟨hle, hlt⟩ := hi.stream.bounded r hr
    exact ⟨hle, toNat_ofNat_of_lt (by omega)⟩

end Run

/-- A server with a buffer of two bytes. -/
def twoByteServer : Server :=
  { sock := some { sockfd := 3 }, dataSize := 2, maxGuest := 2, handlers := { dataHandler := true } }

/-- Two connections that each send a message; then the first is suspended, sends another one, and is resumed during
    the `recv`. The uninitialised variables hold this and that. -/
def twoConnections : List KqAct :=
  List.replicate 3 (KqAct.loop .tick) ++ [KqAct.loop (.kqueue true)] ++ List.replicate 4 (KqAct.loop .tick) ++
  [KqAct.loop (.kevent (some [3])), .loop (.next 0 false), .loop .tick, .loop .tick, .loop (.accept (some 5)),
    .loop .tick, .loop (.next 0 false), .loop .tick, .loop .tick] ++
  [KqAct.loop (.kevent (some [3, 5])), .loop (.next 0 false), .loop .tick, .loop .tick, .loop (.accept (some 6)),
    .loop .tick, .loop (.next 9 true)] ++
  List.replicate 4 (KqAct.loop (.handling .tick)) ++
  [KqAct.loop (.handling (.recv (some [1, 2]))), .loop (.handling (.handler 1 [7, 7])), .loop (.handling .tick),
    .loop (.next 0 true), .loop .tick, .loop .tick, .loop (.kevent (some [6, 5])), .loop (.next 0 true)] ++
  List.replicate 4 (KqAct.loop (.handling .tick)) ++
  [KqAct.loop (.handling (.recv (some [3]))), .loop (.handling (.handler 1 [7, 7])), .loop (.handling .tick),
    .queue 0 .suspend, .loop (.next 8 true)] ++
  List.replicate 5 (KqAct.loop (.handling .tick)) ++
  [KqAct.loop (.handling (.recv (some [4]))), .curQueue .resume, .loop (.handling .tick)]

/-- Their messages are delivered in turn. -/
theorem kq_deliveries_eq_receipts_twoConnections :
    ∃ s₀ s tr, sxServerStartKqueue twoByteServer = some (sxSuccess, some s₀) ∧
      Machine.run (kqStep {}) s₀ twoConnections = some (s, tr) ∧
      deliveries (handlingEvents tr) ++ s.pending = [([1, 2], 2), ([3, 0], 1), ([4, 0], 1)] := by
  have hstart : sxServerStartKqueue twoByteServer = some (sxSuccess, some _) := rfl
  have hrun : Machine.run (kqStep {}) { server := { twoByteServer with obj := sxRetain twoByteServer.obj } }
      twoConnections = some (_, _) := rfl
  exact ⟨_, _, _, hstart, hrun,
    (kq_deliveries_eq_receipts hstart hrun (by decide +kernel)).1.trans (by decide +kernel)⟩

end SpartanX
