import Mathlib.Data.List.ModifyLast
import SpartanX.Connection.Block

/-!
# `Connection.Stream` — what reaches the data handler

One buffer serves every iteration of a block, two branches receive into it, and the status that decides
about a message received in suspension is read after the `recv`. The trace is read as a list of receipts,
one for each successful `recv` (`receipts`); the calls of the data handler are exactly the receipts that
count as delivered, in order, each with its own bytes in an otherwise cleared buffer
(`deliveries_eq_receipts`).

## Contents
- **Receipts and deliveries.** `Receipt`, `receipts`, `deliveries`, `payload`.
- **The buffer.** `BufferInv`: allocated in full, and clear from the `memset` to the `recv`.
- **Step and run.** `streamInv_move`, `streamInv_step`, `streamInv_run`.
-/

namespace SpartanX

open CInt

/-! ## Receipts and deliveries -/

/-- A successful `recv`: the branch it was made in, the bytes it returned, and the status found when
    `queue->status` was read again after it, if it was. -/
structure Receipt where
  branch : Status
  bytes  : List Byte
  reread : Option Status
  deriving DecidableEq, Repr

/-- Whether a receipt is handed to the data handler: always outside suspension; in suspension if it is not
    empty and the status read after it was `running` or `resuming`. -/
def Receipt.Delivered (r : Receipt) : Bool :=
  r.branch ≠ .suspend || (r.bytes ≠ [] && (r.reread = some .running || r.reread = some .resuming))

/-- The receipts after one more event. -/
def note (rs : List Receipt) : ConnEvent → List Receipt
  | .recv st (some bs) => rs ++ [⟨st, bs, none⟩]
  | .reread st         => rs.modifyLast fun r => { r with reread := some st }
  | _                  => rs

/-- The successful `recv` calls of a trace, in order. -/
def receipts (tr : List ConnEvent) : List Receipt := tr.foldl note []

/-- The arguments of a call of the data handler: buffer and length. -/
def ConnEvent.delivery : ConnEvent → Option (List Byte × SizeT)
  | .dataHandler buf len _ => some (buf, len)
  | _                      => none

/-- The calls of the data handler in a trace, in order. -/
def deliveries (tr : List ConnEvent) : List (List Byte × SizeT) := tr.filterMap ConnEvent.delivery

/-- The call that hands over the received bytes: a buffer of `dataSize` bytes that holds them and is clear
    behind them, and their number. -/
def payload (dataSize : SizeT) (bs : List Byte) : List Byte × SizeT :=
  (bs ++ List.replicate (dataSize.toNat - bs.length) 0, BitVec.ofNat 64 bs.length)

/-- The call of the data handler the block stands at, if it stands at one. -/
def Conn.pending (c : Conn) : List (List Byte × SizeT) :=
  match c.pc with
  | .handle          => [(c.buf, c.s)]
  | .handleSuspended => [(c.buf, c.len)]
  | _                => []

theorem receipts_append (tr es : List ConnEvent) : receipts (tr ++ es) = es.foldl note (receipts tr) :=
  List.foldl_append

theorem deliveries_append (tr es : List ConnEvent) : deliveries (tr ++ es) = deliveries tr ++ deliveries es :=
  List.filterMap_append

/-! ## The buffer -/

/-- The program points at which the buffer is allocated. -/
def ConnPc.Allocated : ConnPc → Bool
  | .create | .transfer | .retain | .didConnect | .alloc => false
  | _ => true

/-- The program points between the `memset` and the return of `recv`. -/
def ConnPc.Cleared : ConnPc → Bool
  | .compare | .copy | .branch | .callRecv | .recv | .willSuspend | .callRecvSuspended | .recvSuspended => true
  | _ => false

/-- The program points at which the block waits in `recv`. -/
def ConnPc.Receiving : ConnPc → Bool
  | .recv | .recvSuspended => true
  | _ => false

/-- The buffer holds `dataSize` bytes, is clear from the `memset` to the return of `recv`, and a pending
    `recv` may fill all of it. -/
structure BufferInv (dataSize : SizeT) (c : Conn) : Prop where
  length  : c.pc.Allocated = true → c.buf.length = dataSize.toNat
  cleared : c.pc.Cleared = true → c.buf = List.replicate dataSize.toNat 0
  wants   : c.pc.Receiving = true → c.want = dataSize

section Move

variable {srv : Server} {c c' : Conn} {i : Input} {tr es : List ConnEvent}

/-- What a `recv` leaves in a buffer that was clear. -/
theorem BufferInv.received (hb : BufferInv srv.dataSize c) (hpc : c.pc.Receiving = true)
    {bs : List Byte} (hok : recvOk c.want (some bs) = true) :
    (bs ++ c.buf.drop bs.length, BitVec.ofNat 64 bs.length) = payload srv.dataSize bs ∧
      bs.length ≤ srv.dataSize.toNat ∧ bs.length < 9223372036854775808 := by
  have hclr : c.pc.Cleared = true := by
    cases h : c.pc <;> rw [h] at hpc <;> first | rfl | cases hpc
  simp only [recvOk, hb.wants hpc, Bool.and_eq_true, decide_eq_true_eq] at hok
  refine ⟨?_, hok⟩
  rw [hb.cleared hclr, List.drop_replicate]
  rfl

/-- The buffer invariant survives every move. -/
theorem bufferInv_move (hm : ConnMove srv c i c' es) (hb : BufferInv srv.dataSize c) :
    BufferInv srv.dataSize c' := by
  cases hm with
  | create _ | transfer _ | retain _ | didConnect _ =>
      exact ⟨nofun, nofun, nofun⟩
  | alloc _ => exact ⟨fun _ => List.length_replicate, nofun, nofun⟩
  | clear hpc =>
      have hlen := hb.length (by rw [hpc]; rfl)
      have hclr : List.replicate srv.dataSize.toNat 0 ++ c.buf.drop srv.dataSize.toNat =
          List.replicate srv.dataSize.toNat 0 := by
        rw [List.drop_of_length_le (Nat.le_of_eq hlen), List.append_nil]
      exact ⟨fun _ => by rw [hclr, List.length_replicate], fun _ => hclr, nofun⟩
  -- the buffer stays clear
  | compareRunning hpc | compareOther hpc | copy hpc | branchRunning hpc | branchSuspend hpc
  | willSuspend hpc =>
      exact ⟨fun _ => hb.length (by rw [hpc]; rfl), fun _ => hb.cleared (by rw [hpc]; rfl),
        nofun⟩
  | callRecv hpc | callRecvSuspended hpc =>
      exact ⟨fun _ => hb.length (by rw [hpc]; rfl), fun _ => hb.cleared (by rw [hpc]; rfl), fun _ => rfl⟩
  -- the buffer is written, in its length
  | recv hpc bs hok | recvSuspended hpc bs hok =>
      have hrec := hb.received (by rw [hpc]; rfl) hok
      refine ⟨?_, nofun, nofun⟩
      intro _
      rw [(Prod.mk.inj hrec.1).1, List.length_append, List.length_replicate]
      omega
  | handle hpc _ _ _ hlen | handleSuspended hpc _ _ _ hlen =>
      exact ⟨fun _ => hlen.trans (hb.length (by rw [hpc]; rfl)), nofun, nofun⟩
  -- the buffer is left alone on the way to the next `memset`, or to the end
  | _ hpc => exact ⟨fun _ => hb.length (by rw [hpc]; rfl), nofun, nofun⟩

/-! ## The receipts -/

/-- The invariant: what has been delivered, followed by the call the block stands at, is what the receipts
    say; no receipt is larger than the buffer; and a block about to read the status again holds its last
    receipt in the buffer. -/
structure StreamInv (dataSize : SizeT) (c : Conn) (tr : List ConnEvent) : Prop where
  buffer  : BufferInv dataSize c
  settled : deliveries tr ++ c.pending =
    ((receipts tr).filter Receipt.Delivered).map fun r => payload dataSize r.bytes
  bounded : ∀ r ∈ receipts tr, r.bytes.length ≤ dataSize.toNat ∧ r.bytes.length < 9223372036854775808
  unread  : c.pc = .reread → ∃ rs bs, receipts tr = rs ++ [⟨.suspend, bs, none⟩] ∧ bs ≠ [] ∧
    (c.buf, c.len) = payload dataSize bs

/-- An event that neither adds to the receipts nor calls the data handler. -/
def ConnEvent.Quiet (e : ConnEvent) : Prop := (∀ rs, note rs e = rs) ∧ e.delivery = none

theorem receipts_quiet (tr : List ConnEvent) (hes : ∀ e ∈ es, e.Quiet) : receipts (tr ++ es) = receipts tr := by
  rw [receipts_append]
  exact Machine.foldl_unchanged fun e he => (hes e he).1 _

theorem deliveries_quiet (tr : List ConnEvent) (hes : ∀ e ∈ es, e.Quiet) :
    deliveries (tr ++ es) = deliveries tr := by
  have hnil : deliveries es = [] := List.filterMap_eq_nil_iff.mpr fun e he => (hes e he).2
  rw [deliveries_append, hnil, List.append_nil]

/-- A step that is quiet and keeps the pending call keeps the invariant. -/
theorem StreamInv.quiet {dataSize : SizeT} (hi : StreamInv dataSize c tr) (hb : BufferInv dataSize c')
    (hes : ∀ e ∈ es, e.Quiet) (hpend : c'.pending = c.pending)
    (hre : c'.pc = .reread → c.pc = .reread ∧ c'.buf = c.buf ∧ c'.len = c.len) :
    StreamInv dataSize c' (tr ++ es) := by
  refine ⟨hb, ?_, ?_, ?_⟩
  · rw [deliveries_quiet tr hes, receipts_quiet tr hes, hpend]
    exact hi.settled
  · rw [receipts_quiet tr hes]
    exact hi.bounded
  · intro h
    obtain ⟨hpc, hbuf, hlen⟩ := hre h
    rw [receipts_quiet tr hes, hbuf, hlen]
    exact hi.unread hpc

/-- A quiet step away from the calls of the data handler. -/
theorem StreamInv.pass {dataSize : SizeT} (hi : StreamInv dataSize c tr) (hb : BufferInv dataSize c')
    (hes : ∀ e ∈ es, e.Quiet) (hpend : c.pending = []) (hpend' : c'.pending = []) (hre : c'.pc ≠ .reread) :
    StreamInv dataSize c' (tr ++ es) :=
  hi.quiet hb hes (hpend'.trans hpend.symm) fun h => absurd h hre

/-- The call of the data handler the block stands at is made. -/
theorem StreamInv.deliver {dataSize : SizeT} {buf : List Byte} {len ret : SizeT}
    (hi : StreamInv dataSize c tr) (hb : BufferInv dataSize c') (hpend : c.pending = [(buf, len)])
    (hpend' : c'.pending = []) (hre : c'.pc ≠ .reread) :
    StreamInv dataSize c' (tr ++ [ConnEvent.dataHandler buf len ret]) := by
  have hrec : receipts (tr ++ [ConnEvent.dataHandler buf len ret]) = receipts tr := by
    rw [receipts_append]
    rfl
  refine ⟨hb, ?_, ?_, fun h => absurd h hre⟩
  · rw [hrec, deliveries_append, hpend', List.append_nil, ← hi.settled, hpend]
    rfl
  · rw [hrec]
    exact hi.bounded

/-- A successful `recv` adds its receipt. -/
theorem StreamInv.receive {dataSize : SizeT} {st : Status} {bs : List Byte} (hi : StreamInv dataSize c tr)
    (hb : BufferInv dataSize c') (hpend : c.pending = [])
    (hpend' : c'.pending =
      if Receipt.Delivered ⟨st, bs, none⟩ then [payload dataSize bs] else [])
    (hbs : bs.length ≤ dataSize.toNat ∧ bs.length < 9223372036854775808)
    (hre : c'.pc = .reread → st = .suspend ∧ bs ≠ [] ∧ (c'.buf, c'.len) = payload dataSize bs) :
    StreamInv dataSize c' (tr ++ [ConnEvent.recv st (some bs)]) := by
  have hrec : receipts (tr ++ [ConnEvent.recv st (some bs)]) = receipts tr ++ [⟨st, bs, none⟩] := by
    rw [receipts_append]
    rfl
  have hdel : deliveries (tr ++ [ConnEvent.recv st (some bs)]) = deliveries tr := by
    rw [deliveries_append]
    exact List.append_nil _
  have hset := hi.settled
  rw [hpend, List.append_nil] at hset
  refine ⟨hb, ?_, ?_, ?_⟩
  · rw [hrec, hdel, hpend', List.filter_append, List.map_append, hset]
    cases hd : Receipt.Delivered ⟨st, bs, none⟩ <;> simp [hd]
  · intro r hr
    rw [hrec] at hr
    rcases List.mem_append.mp hr with hr | hr
    · exact hi.bounded r hr
    · rw [List.mem_singleton.mp hr]
      exact hbs
  · intro h
    obtain ⟨rfl, hne, heq⟩ := hre h
    exact ⟨receipts tr, bs, hrec, hne, heq⟩

/-- Reading the status again decides about the last receipt. -/
theorem StreamInv.decide {dataSize : SizeT} {st : Status} (hi : StreamInv dataSize c tr)
    (hb : BufferInv dataSize c') (hpc : c.pc = .reread) (hpc' : c'.pc ≠ .reread)
    (hpend' : c'.pending = if st = .running ∨ st = .resuming then [(c.buf, c.len)] else []) :
    StreamInv dataSize c' (tr ++ [ConnEvent.reread st]) := by
  obtain ⟨rs, bs, hrs, hne, heq⟩ := hi.unread hpc
  have hrec : receipts (tr ++ [ConnEvent.reread st]) = rs ++ [⟨.suspend, bs, some st⟩] := by
    rw [receipts_append, hrs]
    exact List.modifyLast_concat _ _ _
  have hdel : deliveries (tr ++ [ConnEvent.reread st]) = deliveries tr := by
    rw [deliveries_append]
    exact List.append_nil _
  have hpend : c.pending = [] := by rw [Conn.pending, hpc]
  have hset := hi.settled
  rw [hpend, List.append_nil, hrs, List.filter_append, List.map_append] at hset
  refine ⟨hb, ?_, ?_, fun h => absurd h hpc'⟩
  · rw [hrec, hdel, hpend', List.filter_append, List.map_append, hset, heq]
    by_cases hst : st = .running ∨ st = .resuming <;> simp [Receipt.Delivered, hst, hne]
  · intro r hr
    have hlast := hi.bounded ⟨.suspend, bs, none⟩ (by rw [hrs]; simp)
    rw [hrec] at hr
    rcases List.mem_append.mp hr with hr | hr
    · exact hi.bounded r (by rw [hrs]; exact List.mem_append_left _ hr)
    · rw [List.mem_singleton.mp hr]
      exact hlast

/-- **The invariant survives every move.** -/
theorem streamInv_move (hm : ConnMove srv c i c' es) (hi : StreamInv srv.dataSize c tr) :
    StreamInv srv.dataSize c' (tr ++ es) := by
  have hb := bufferInv_move hm hi.buffer
  have hpass (hq : ∀ e ∈ es, e.Quiet) (hpc : c.pc ≠ .handle ∧ c.pc ≠ .handleSuspended)
      (hpc' : c'.pc ≠ .handle ∧ c'.pc ≠ .handleSuspended ∧ c'.pc ≠ .reread) :
      StreamInv srv.dataSize c' (tr ++ es) := by
    refine hi.pass hb hq ?_ ?_ hpc'.2.2
    · cases h : c.pc <;> simp_all [Conn.pending]
    · cases h : c'.pc <;> simp_all [Conn.pending]
  cases hm with
  | recv hpc bs hok =>
      have hrec := hi.buffer.received (by rw [hpc]; rfl) hok
      refine hi.receive hb (by rw [Conn.pending, hpc]) ?_ hrec.2 (fun h => by cases h)
      rw [← hrec.1]
      rfl
  | recvSuspended hpc bs hok hne =>
      have hrec := hi.buffer.received (by rw [hpc]; rfl) hok
      refine hi.receive hb (by rw [Conn.pending, hpc]) ?_ hrec.2 (fun _ => ⟨rfl, hne, hrec.1⟩)
      simp [Conn.pending, Receipt.Delivered]
  | recvSuspendedEmpty hpc =>
      refine hi.receive hb (by rw [Conn.pending, hpc]) rfl (by simp) (fun h => by cases h)
  | handle hpc ret buf => exact hi.deliver hb (by rw [Conn.pending, hpc]) rfl (by simp)
  | handleSuspended hpc ret buf => exact hi.deliver hb (by rw [Conn.pending, hpc]) rfl (by simp)
  | rereadEnds hpc hs =>
      refine hi.decide hb hpc (by simp) ?_
      rcases hs with hs | hs <;> rw [hs] <;> rfl
  | rereadDelivers hpc hs =>
      refine hi.decide hb hpc (by simp) ?_
      rw [if_pos (Or.comm.mp hs)]
      rfl
  | rereadSkips hpc _ hs =>
      refine hi.decide hb hpc (by simp) ?_
      rw [if_neg (mt Or.comm.mp hs)]
      rfl
  | didConnect hpc | didResume hpc | willSuspend hpc | willKill hpc | didDisconnect hpc =>
      exact hpass (forall_mem_callIf ⟨fun _ => rfl, rfl⟩ _) (by simp [hpc]) (by simp)
  | alloc hpc | clear hpc =>
      exact hpass (by simp [ConnEvent.Quiet, note, ConnEvent.delivery]) (by simp [hpc]) (by simp)
  | _ hpc => exact hpass (by simp [ConnEvent.Quiet, note, ConnEvent.delivery]) (by simp [hpc]) (by simp)

end Move

/-! ## Runs -/

/-- The invariant survives every step of a connection among other parties. -/
theorem streamInv_step {srv : Server} {c c' : Conn} {tr es : List ConnEvent} {a : ConnAct}
    (hi : StreamInv srv.dataSize c tr) (hs : connSysStep srv c a = some (c', es)) :
    StreamInv srv.dataSize c' (tr ++ es) := by
  cases a with
  | block st i =>
      have hm : ConnMove { srv with status := st } c i c' es := connStep_move hs
      exact (streamInv_move hm hi :)
  | suspend | resume | setStatus _ =>
      -- the buffer and the calls do not depend on the status of the queue
      obtain ⟨_, st, e, rfl, rfl, he⟩ := connSysStep_other rfl hs
      refine hi.quiet ⟨hi.buffer.length, hi.buffer.cleared, hi.buffer.wants⟩ ?_ rfl
        (fun h => ⟨h, rfl, rfl⟩)
      intro e' h
      rw [List.mem_singleton.mp h]
      cases e <;> first | exact ⟨fun _ => rfl, rfl⟩ | cases he

/-- The invariant holds in every run from the dispatch of the block. -/
theorem streamInv_run {srv : Server} {sock : Socket} {acts : List ConnAct} {c : Conn} {tr : List ConnEvent}
    (hrun : Machine.run (connSysStep srv) (Conn.start sock) acts = some (c, tr)) :
    StreamInv srv.dataSize c tr := by
  have h0 : StreamInv srv.dataSize (Conn.start sock) [] :=
    ⟨⟨nofun, nofun, nofun⟩, rfl, by simp [receipts], nofun⟩
  simpa using Machine.run_invariant (I := StreamInv srv.dataSize)
    (fun _ _ _ _ _ hi hs => streamInv_step hi hs) h0 hrun

/-- **Stream integrity.** In every run from the dispatch of the block, what the data handler has been given,
    and what it is about to be given, are the delivered receipts, in order: each with its own bytes in an
    otherwise clear buffer, and with its own length. -/
theorem deliveries_eq_receipts {srv : Server} {sock : Socket} {acts : List ConnAct} {c : Conn}
    {tr : List ConnEvent} (hrun : Machine.run (connSysStep srv) (Conn.start sock) acts = some (c, tr)) :
    deliveries tr ++ c.pending =
      ((receipts tr).filter Receipt.Delivered).map (fun r => payload srv.dataSize r.bytes) ∧
    ∀ r ∈ receipts tr, r.bytes.length ≤ srv.dataSize.toNat ∧
      (payload srv.dataSize r.bytes).2.toNat = r.bytes.length := by
  have hi := streamInv_run hrun
  refine ⟨hi.settled, ?_⟩
  intro r hr
  obtain ⟨hle, hlt⟩ := hi.bounded r hr
  exact ⟨hle, toNat_ofNat_of_lt (by omega)⟩

/-- A connection that delivers a message, is suspended, drops the next one, and delivers the one whose `recv`
    is interrupted by a resume request. -/
def interrupted : List ConnAct :=
  List.replicate 9 (ConnAct.block .running .tick) ++
  [ConnAct.block .running (.recv (some [1, 2])), .block .running (.handler 1 [9, 9]), .block .running .tick,
    .suspend] ++
  List.replicate 5 (ConnAct.block .running .tick) ++
  [ConnAct.block .running (.recv (some [3])), .block .running .tick, .block .running .tick] ++
  List.replicate 5 (ConnAct.block .running .tick) ++
  [ConnAct.block .running (.recv (some [4])), .resume, .block .running .tick,
    .block .running (.handler 1 [0, 0])]

/-- Two of its three messages are delivered, the third over the bytes of none of the others. -/
theorem deliveries_eq_receipts_interrupted :
    ∃ c tr, Machine.run (connSysStep { dataSize := 2, handlers := { dataHandler := true } })
        (Conn.start {}) interrupted = some (c, tr) ∧
      deliveries tr ++ c.pending = [([1, 2], 2), ([4, 0], 1)] := by
  have hrun : Machine.run (connSysStep { dataSize := 2, handlers := { dataHandler := true } })
      (Conn.start {}) interrupted = some (_, _) := rfl
  exact ⟨_, _, hrun, (deliveries_eq_receipts hrun).1.trans (by decide +kernel)⟩

end SpartanX
