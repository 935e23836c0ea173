import SpartanX.Swift.FindAll
import SpartanX.Swift.Tail

/-!
# `Swift.Proxy` — a connection to the Swift proxy

The data handler of the Swift proxy looks for the host in the second line of what it receives, connects a client to it
if the connection has none yet, and sends the client everything it receives from then on, as it is. What it receives
before, and does not send back, is lost (`swift_proxy_passes_on`). A message whose second line has no second word is a
trap, and so is a host that cannot be looked up (`swift_proxy_returns_iff`).

## Contents
- **The code.** `Message`, `hostHandler`, `swiftProxyReceive`, `swiftProxyRun`.
- **The second segment.** `secondSegment`, `words`, `secondWord_eq`.
- **What a call does.** `Message.host`, `swiftProxyReceive_eq`.
- **Results.** `swift_proxy_returns_iff`, `swift_proxy_passes_on`.
-/

namespace SpartanX

open NSDataSegment Occurrences

/-! ## The code -/

/-- The bytes of data. -/
def NSData.contents (d : NSData) : List UInt8 := (List.range d.length).map d.bytes

/-- A call of the data handler: what has been received, and whether the host can be looked up and a socket created. -/
structure Message where
  data      : NSData
  reachable : Bool

/-- What the data handler does: it sends data back to the guest, starts a client for a host with a first payload, or
    sends data to the client it has. -/
inductive ProxyEffect
  | toGuest (data : List UInt8)
  | start (domain payload : List UInt8)
  | toHost (data : List UInt8)
  deriving DecidableEq, Repr

def textCrlfBytes : List UInt8 := [0x0d, 0x0a]

/-- `String(data:encoding: NSUTF8StringEncoding)` is not nil. -/
def isUtf8 (data : List UInt8) : Bool := (ByteArray.mk data.toArray).validateUTF8

/-- What the handler of the segments has captured: the domain, and what it has sent back. -/
abbrev Captured := Option (List UInt8) × List ProxyEffect

/-- The handler given to `findall`. It always returns false, so what it traps in need not stop `findall`. `behind` is
    the memory behind the copies of data. -/
def hostHandler (behind : List UInt8 → Nat → UInt8) (captured : Exec Captured) (data : List UInt8) :
    Exec Captured × Bool :=
  (do
    let (domain, sent) ← captured
    let ssegments := create (.ofBytes data (behind data)) [0x20]
    let (_, ssegments) ← ssegments.next
    let (uri, _) ← ssegments.next
    match uri with
    | none     => .fault
    | some uri => if isUtf8 uri then pure (some uri, sent) else pure (domain, sent ++ [.toGuest data]), false)

/-- What the data handler does when it is through with the segments. -/
def swiftProxyPass (client : Option (List UInt8)) (message : Message) : Captured → Exec Captured
  | (domain, sent) =>
    match client with
    | some client => pure (some client, sent ++ [.toHost message.data.contents])
    | none        =>
      match domain with
      | none        => pure (none, sent)
      | some domain =>
        -- `try!`
        if message.reachable then pure (some domain, sent ++ [.start domain message.data.contents]) else .fault

/-- The data handler: the client bound to the queue after it, and what it does. It always returns true. -/
def swiftProxyReceive (behind : List UInt8 → Nat → UInt8) (client : Option (List UInt8)) (message : Message) :
    Exec Captured := do
  let segments := create message.data textCrlfBytes
  let (i, segments) ← segments.next
  -- `i == data.length` compares data with a number
  match i with
  | none   => pure (client, [.toGuest message.data.contents])
  | some _ => do
    let st ← findall (hostHandler behind) 1 segments (pure (none, []))
    let captured ← st.state
    swiftProxyPass client message captured

/-- The calls for a connection, one after the other. -/
def swiftProxyRun (behind : List UInt8 → Nat → UInt8) : Option (List UInt8) → List Message → Exec Captured
  | client, []                  => pure (client, [])
  | client, message :: messages => do
    let (client, effects) ← swiftProxyReceive behind client message
    let (client, rest) ← swiftProxyRun behind client messages
    pure (client, effects ++ rest)

/-! ## The second segment -/

/-- What the second call of `next` returns. -/
def secondSegment (seg : NSDataSegment) : Option (List UInt8) :=
  match seg.segments 2 with
  | .ok [_, g] => some g.val
  | _          => none

/-- The words of a line, as `next` cuts them. -/
def words (line : List UInt8) : List (List UInt8) :=
  if (lastPiece [0x20] line).length < 1 then (pieces [0x20] line).dropLast else pieces [0x20] line

section Second

variable {d : NSData} {core sep line : List UInt8} {gs : List Segment}

theorem holds_contents (d : NSData) : d.Holds d.contents where
  length := by
    unfold NSData.contents
    rw [List.length_map, List.length_range]
  bytes j h := by
    simp [NSData.contents]

theorem secondSegment_of_cuts (hd : d.Holds core) (h : Cuts d core sep 0 gs) :
    secondSegment (create d sep) = (gs[1]?).map (·.val) := by
  have hsegments : (create d sep).segments 2 = .ok (gs.take 2) := segments_of_cuts hd rfl h 2
  unfold secondSegment
  rw [hsegments]
  rcases gs with _ | ⟨g₀, _ | ⟨g₁, gs⟩⟩ <;> rfl

/-- One call of `next`, and what is left. -/
theorem next_of_cuts {seg : NSDataSegment} {o : Nat} (hd : seg.core.Holds core) (ho : seg.nextOffset = o)
    (h : Cuts seg.core core seg.sepearator o gs) :
    ∃ seg' o', seg.next = .ok ((gs.head?).map (·.val), seg') ∧ seg'.core = seg.core ∧
      seg'.sepearator = seg.sepearator ∧ seg'.nextOffset = (o' : Nat) ∧
      Cuts seg.core core seg.sepearator o' gs.tail := by
  cases h with
  | stop hstop => exact ⟨seg, o, next_stop hd ho hstop, rfl, rfl, ho, .stop hstop⟩
  | @cut _ r gs hfits hr hgs =>
      obtain ⟨r', hr', hnext⟩ := next_cut hd ho hfits
      obtain rfl := hr.unique hr'
      exact ⟨seg.past o r, r + seg.sepearator.length, hnext, rfl, rfl, seg.past_nextOffset o r, hgs⟩

/-- Two calls. -/
theorem next_twice (hd : d.Holds core) (hne : sep ≠ []) :
    ∃ first seg₁ seg₂, (create d sep).next = .ok (first, seg₁) ∧
      seg₁.next = .ok (secondSegment (create d sep), seg₂) ∧
      (first = none ↔ core.length < sep.length) := by
  have hpos := List.length_pos_of_ne_nil hne
  obtain ⟨gs, hgs⟩ := exists_cuts d core hd hne 0
  have hstart : (create d sep).core.Holds core := hd
  obtain ⟨seg₁, o₁, hnext₁, hcore₁, hsep₁, ho₁, hgs₁⟩ := next_of_cuts hstart rfl hgs
  rw [← hcore₁, ← hsep₁] at hgs₁
  obtain ⟨seg₂, o₂, hnext₂, _⟩ := next_of_cuts (hcore₁ ▸ hd) ho₁ hgs₁
  refine ⟨_, seg₁, seg₂, hnext₁, ?_, ?_⟩
  · rw [secondSegment_of_cuts hd hgs, hnext₂]
    rcases gs with _ | ⟨g₀, _ | ⟨g₁, gs⟩⟩ <;> rfl
  · cases hgs with
    | stop hstop => exact ⟨fun _ => by omega, fun _ => rfl⟩
    | cut hfits _ _ => exact ⟨nofun, fun _ => by omega⟩

theorem curVal_of_next {seg seg' : NSDataSegment} {val : List UInt8} (h : seg.next = .ok (some val, seg')) :
    seg'.curVal = .ok val := by
  unfold next at h
  obtain ⟨found, _, h⟩ := Exec.bind_eq_ok.mp h
  cases found with
  | none => cases h
  | some endpoint =>
      obtain ⟨val', hval, h⟩ := Exec.bind_eq_ok.mp h
      cases h
      exact hval

/-- A handler that wants no other segment is handed one, if there is one. -/
theorem findall_once {σ : Type} {handler : σ → List UInt8 → σ × Bool} {seg seg' : NSDataSegment}
    {val : Option (List UInt8)} (hrefuses : ∀ s v, (handler s v).2 = false) (h : seg.next = .ok (val, seg')) (s : σ) :
    ∃ st, findall handler 1 seg s = .ok st ∧ st.state = val.elim s fun v => (handler s v).1 := by
  rw [findall_succ]
  unfold findallBody
  dsimp only
  rw [h, Exec.ok_bind]
  cases val with
  | none => exact ⟨_, rfl, rfl⟩
  | some v =>
      dsimp only
      rw [curVal_of_next h, Exec.ok_bind]
      refine ⟨{ seg := seg', state := (handler s v).1, left := !(handler s v).2 }, ?_, rfl⟩
      rw [hrefuses]
      rfl

/-- The second word of a line does not depend on the memory behind it: a separator of one byte does not reach
    there. -/
theorem secondWord_eq (behind : Nat → UInt8) (line : List UInt8) :
    secondSegment (create (.ofBytes line behind) [0x20]) = (words line)[1]? := by
  have hd := NSData.holds_ofBytes line behind
  have hne : ([0x20] : List UInt8) ≠ [] := List.cons_ne_nil _ _
  obtain ⟨gs, hgs⟩ := exists_cuts (.ofBytes line behind) line hd hne 0
  rw [secondSegment_of_cuts hd hgs, ← List.getElem?_map]
  congr 1
  by_cases hline : line = []
  · subst hline
    cases hgs with
    | stop _ => rfl
    | cut hfits _ _ => exact absurd hfits.1 (Nat.lt_irrefl 0)
  · have hquiet : Quiet (.ofBytes line behind) line [0x20] := by
      intro p hp hover
      exact absurd hover (Nat.not_lt.mpr hp)
    rw [hgs.vals hd hne hquiet (Nat.zero_le _) (List.length_pos_of_ne_nil hline)]
    rfl

end Second

/-! ## What a call does -/

/-- The line the host is looked for in. -/
def Message.hostLine (message : Message) : Option (List UInt8) := secondSegment (create message.data textCrlfBytes)

/-- The host a message names: the second word of that line, if it can be decoded. -/
def Message.host (message : Message) : Option (List UInt8) :=
  (message.hostLine.bind fun line => (words line)[1]?).filter isUtf8

section Call

variable {behind : List UInt8 → Nat → UInt8} {client : Option (List UInt8)} {message : Message}

/-- What the handler of the segments makes of a line. -/
theorem hostHandler_line (behind : List UInt8 → Nat → UInt8) (line : List UInt8) :
    (hostHandler behind (pure (none, [])) line).1 =
      match (words line)[1]? with
      | none     => .fault
      | some uri => if isUtf8 uri then .ok (some uri, []) else .ok (none, [.toGuest line]) := by
  obtain ⟨_, seg₁, seg₂, hnext₁, hnext₂, _⟩ :=
    next_twice (NSData.holds_ofBytes line (behind line)) (List.cons_ne_nil 0x20 [])
  rw [secondWord_eq] at hnext₂
  unfold hostHandler
  rw [Exec.pure_eq, Exec.ok_bind]
  dsimp only
  rw [hnext₁, Exec.ok_bind]
  dsimp only
  rw [hnext₂, Exec.ok_bind]
  rfl

/-- **What a call does.** -/
theorem swiftProxyReceive_eq (behind : List UInt8 → Nat → UInt8) (client : Option (List UInt8)) (message : Message) :
    swiftProxyReceive behind client message =
      if message.data.length < 2 then .ok (client, [.toGuest message.data.contents])
      else
        match message.hostLine with
        | none      => swiftProxyPass client message (none, [])
        | some line =>
          match (words line)[1]? with
          | none     => .fault
          | some uri =>
            swiftProxyPass client message (if isUtf8 uri then (some uri, []) else (none, [.toGuest line])) := by
  obtain ⟨first, seg₁, seg₂, hnext₁, hnext₂, hfirst⟩ :=
    next_twice (holds_contents message.data) (show textCrlfBytes ≠ [] from List.cons_ne_nil _ _)
  have hlength : message.data.contents.length = message.data.length := (holds_contents message.data).length.symm
  have hshort : first = none ↔ message.data.length < 2 := hlength ▸ hfirst
  unfold swiftProxyReceive
  dsimp only
  rw [hnext₁, Exec.ok_bind]
  cases first with
  | none =>
      rw [if_pos (hshort.mp rfl)]
      rfl
  | some _ =>
      rw [if_neg (mt hshort.mpr nofun)]
      obtain ⟨st, hfind, hstate⟩ :=
        findall_once (show ∀ s e, (hostHandler behind s e).2 = false from fun _ _ => rfl) hnext₂ (pure (none, []))
      dsimp only
      rw [hfind, Exec.ok_bind, hstate]
      unfold Message.hostLine
      cases secondSegment (create message.data textCrlfBytes) with
      | none => rfl
      | some line =>
          dsimp only [Option.elim]
          rw [hostHandler_line]
          cases (words line)[1]? with
          | none => rfl
          | some uri =>
              dsimp only
              split <;> rfl

/-- A message of less than two bytes has no lines. -/
theorem hostLine_short (h : message.data.length < 2) : message.hostLine = none := by
  have hd := holds_contents message.data
  have hdlen := hd.length
  have hstop : Cuts message.data message.data.contents textCrlfBytes 0 [] := .stop (.inr (by
    show message.data.contents.length < 2 + 0
    omega))
  exact secondSegment_of_cuts hd hstop

/-- The payload of what is sent to a host. -/
def ProxyEffect.payload : ProxyEffect → Option (List UInt8)
  | .toGuest _       => none
  | .start _ payload => some payload
  | .toHost data     => some data

/-- The host a client is started for. -/
def ProxyEffect.started : ProxyEffect → Option (List UInt8)
  | .start domain _ => some domain
  | _               => none

/-- The handler does not send the message back right away. -/
def Message.read (message : Message) : Bool := 2 ≤ message.data.length

/-- What is done in the end, if only the guest has been sent anything before. -/
structure Passes (client : Option (List UInt8)) (message : Message) (host : Option (List UInt8))
    (client' : Option (List UInt8)) (effects : List ProxyEffect) : Prop where
  bound    : client' = client.or host
  payloads : effects.filterMap ProxyEffect.payload =
    if client'.isSome && message.read then [message.data.contents] else []
  started  : effects.filterMap ProxyEffect.started = if client.isSome then [] else host.toList

/-- The end of the handler returns iff a client that has to be started can be. -/
theorem swiftProxyPass_ok (client domain : Option (List UInt8)) {sent : List ProxyEffect}
    (hread : message.read = true)
    (hsent : ∀ e ∈ sent, e.payload = none ∧ e.started = none) :
    ((swiftProxyPass client message (domain, sent)).Returns ↔
      (client = none → domain.isSome → message.reachable = true)) ∧
      ∀ client' effects, swiftProxyPass client message (domain, sent) = .ok (client', effects) →
        Passes client message domain client' effects := by
  have hpayloads : sent.filterMap ProxyEffect.payload = [] := List.filterMap_eq_nil_iff.mpr fun e he => (hsent e he).1
  have hstarted : sent.filterMap ProxyEffect.started = [] := List.filterMap_eq_nil_iff.mpr fun e he => (hsent e he).2
  cases client with
  | some c =>
      refine ⟨⟨fun _ => nofun, fun _ => ⟨_, rfl⟩⟩, ?_⟩
      intro client' effects h
      cases h
      refine ⟨rfl, ?_, ?_⟩
      · rw [List.filterMap_append, hpayloads, hread]
        rfl
      · rw [List.filterMap_append, hstarted]
        rfl
  | none =>
      cases domain with
      | none =>
          refine ⟨⟨fun _ _ => nofun, fun _ => ⟨_, rfl⟩⟩, ?_⟩
          intro client' effects h
          cases h
          exact ⟨rfl, hpayloads, hstarted⟩
      | some domain =>
          unfold swiftProxyPass
          dsimp only
          cases hreachable : message.reachable with
          | false =>
              refine ⟨⟨?_, ?_⟩, ?_⟩
              · rintro ⟨_, h⟩
                cases h
              · intro h
                cases h rfl rfl
              · intro client' effects h
                cases h
          | true =>
              refine ⟨⟨fun _ _ _ => rfl, fun _ => ⟨_, rfl⟩⟩, ?_⟩
              intro client' effects h
              cases h
              refine ⟨rfl, ?_, ?_⟩
              · rw [List.filterMap_append, hpayloads, hread]
                rfl
              · rw [List.filterMap_append, hstarted]
                rfl

/-- A call returns iff the line has a second word and the client that has to be started can be; and what it does. -/
theorem swiftProxyReceive_ok (behind : List UInt8 → Nat → UInt8) (client : Option (List UInt8)) (message : Message) :
    ((swiftProxyReceive behind client message).Returns ↔
      (∀ line, message.hostLine = some line → 2 ≤ (words line).length) ∧
        (client = none → message.host.isSome → message.reachable = true)) ∧
      ∀ client' effects, swiftProxyReceive behind client message = .ok (client', effects) →
        Passes client message message.host client' effects := by
  rw [swiftProxyReceive_eq]
  by_cases hshort : message.data.length < 2
  · have hline := hostLine_short hshort
    have hhost : message.host = none := by
      unfold Message.host
      rw [hline]
      rfl
    rw [if_pos hshort, hline, hhost]
    refine ⟨⟨fun _ => ⟨nofun, fun _ => nofun⟩, fun _ => ⟨_, rfl⟩⟩, ?_⟩
    intro client' effects h
    cases h
    refine ⟨(Option.or_none ..).symm, ?_, ?_⟩
    · have hread : message.read = false := decide_eq_false (Nat.not_le.mpr hshort)
      rw [hread, Bool.and_false]
      rfl
    · cases client <;> rfl
  · have hread : message.read = true := decide_eq_true (Nat.not_lt.mp hshort)
    rw [if_neg hshort]
    unfold Message.host
    cases hline : message.hostLine with
    | none =>
        obtain ⟨hreturns, hdoes⟩ := swiftProxyPass_ok client none hread
          (fun e he => (List.not_mem_nil he).elim)
        exact ⟨hreturns.trans ⟨fun h => ⟨nofun, h⟩, And.right⟩, hdoes⟩
    | some line =>
        dsimp only [Option.bind]
        cases hword : (words line)[1]? with
        | none =>
            have hfew := List.getElem?_eq_none_iff.mp hword
            refine ⟨⟨?_, ?_⟩, nofun⟩
            · rintro ⟨_, h⟩
              cases h
            · rintro ⟨h, _⟩
              exact absurd (h line rfl) (by omega)
        | some uri =>
            obtain ⟨hlength, _⟩ := List.getElem?_eq_some_iff.mp hword
            have htwo : ∀ line', some line = some line' → 2 ≤ (words line').length := by
              intro line' h
              cases h
              exact hlength
            dsimp only
            cases hutf8 : isUtf8 uri with
            | true =>
                obtain ⟨hreturns, hdoes⟩ := swiftProxyPass_ok client (some uri) hread
                  (fun e he => (List.not_mem_nil he).elim)
                rw [Option.filter_some_pos hutf8, if_pos rfl]
                exact ⟨hreturns.trans ⟨fun h => ⟨htwo, h⟩, And.right⟩, hdoes⟩
            | false =>
                have hsent : ∀ e ∈ [ProxyEffect.toGuest line], e.payload = none ∧ e.started = none := by
                  simp [ProxyEffect.payload, ProxyEffect.started]
                obtain ⟨hreturns, hdoes⟩ := swiftProxyPass_ok client none hread hsent
                rw [Option.filter_some_neg hutf8, if_neg Bool.false_ne_true]
                exact ⟨hreturns.trans ⟨fun h => ⟨htwo, h⟩, And.right⟩, hdoes⟩

end Call

/-! ## Results -/

section Run

variable {behind : List UInt8 → Nat → UInt8} {client client' : Option (List UInt8)} {messages : List Message}
variable {effects : List ProxyEffect}

/-- The calls return one after the other. -/
theorem swiftProxyRun_cons {message : Message} :
    swiftProxyRun behind client (message :: messages) = .ok (client', effects) ↔
      ∃ client₁ es es', swiftProxyReceive behind client message = .ok (client₁, es) ∧
        swiftProxyRun behind client₁ messages = .ok (client', es') ∧ effects = es ++ es' := by
  constructor
  · intro h
    obtain ⟨⟨client₁, es⟩, hreceive, h⟩ := Exec.bind_eq_ok.mp h
    obtain ⟨⟨client₂, es'⟩, hrest, h⟩ := Exec.bind_eq_ok.mp h
    cases h
    exact ⟨client₁, es, es', hreceive, hrest, rfl⟩
  · rintro ⟨client₁, es, es', hreceive, hrest, rfl⟩
    rw [swiftProxyRun, hreceive, Exec.ok_bind]
    dsimp only
    rw [hrest]
    rfl

/-- From a call on at which there is a client. -/
theorem swiftProxyRun_bound {c : List UInt8} (h : swiftProxyRun behind (some c) messages = .ok (client', effects)) :
    client' = some c ∧ effects.filterMap ProxyEffect.started = [] ∧
      effects.filterMap ProxyEffect.payload = (messages.filter Message.read).map fun m => m.data.contents := by
  induction messages generalizing effects with
  | nil =>
      cases h
      exact ⟨rfl, rfl, rfl⟩
  | cons message messages ih =>
      obtain ⟨client₁, es, es', hreceive, hrest, rfl⟩ := swiftProxyRun_cons.mp h
      have hpasses := (swiftProxyReceive_ok behind (some c) message).2 _ _ hreceive
      obtain rfl : client₁ = some c := hpasses.bound
      obtain ⟨hclient, hstarted, hpayloads⟩ := ih hrest
      refine ⟨hclient, ?_, ?_⟩
      · rw [List.filterMap_append, hpasses.started, hstarted]
        rfl
      · rw [List.filterMap_append, hpasses.payloads, hpayloads, List.filter_cons]
        cases message.read <;> rfl

/-- Whoever names a host has been read. -/
theorem Message.read_of_host {message : Message} (h : message.host.isSome = true) : message.read = true := by
  refine decide_eq_true (Nat.not_lt.mp fun hshort => ?_)
  unfold Message.host at h
  rw [hostLine_short hshort] at h
  cases h

/-- **A connection to the Swift proxy passes on** what it receives from the first message that names a host on. For
    any messages and any memory behind them and behind the copies of their lines: one client is started at most, for
    the host that message names; it is sent that message and all after it, as they are and in order, but for those of
    less than two bytes; and nothing of what came before. -/
theorem swift_proxy_passes_on (h : swiftProxyRun behind none messages = .ok (client', effects)) :
    client' = messages.findSome? Message.host ∧ effects.filterMap ProxyEffect.started = client'.toList ∧
      effects.filterMap ProxyEffect.payload =
        ((messages.dropWhile fun m => m.host.isNone).filter Message.read).map fun m => m.data.contents := by
  induction messages generalizing effects with
  | nil =>
      cases h
      exact ⟨rfl, rfl, rfl⟩
  | cons message messages ih =>
      obtain ⟨client₁, es, es', hreceive, hrest, rfl⟩ := swiftProxyRun_cons.mp h
      have hpasses := (swiftProxyReceive_ok behind none message).2 _ _ hreceive
      have hbound : client₁ = message.host := hpasses.bound
      have hpayloads := hpasses.payloads
      have hstarted := hpasses.started
      cases hhost : message.host with
      | none =>
          rw [hhost] at hbound hstarted
          subst hbound
          obtain ⟨hclient, hstarted', hpayloads'⟩ := ih hrest
          refine ⟨?_, ?_, ?_⟩
          · rw [hclient, List.findSome?_cons, hhost]
          · rw [List.filterMap_append, hstarted, hstarted']
            rfl
          · rw [List.filterMap_append, hpayloads, hpayloads', List.dropWhile_cons, hhost]
            rfl
      | some host =>
          have hread : message.read = true := Message.read_of_host (by rw [hhost]; rfl)
          rw [hhost] at hbound hstarted
          subst hbound
          obtain ⟨rfl, hstarted', hpayloads'⟩ := swiftProxyRun_bound hrest
          refine ⟨?_, ?_, ?_⟩
          · rw [List.findSome?_cons, hhost]
          · rw [List.filterMap_append, hstarted, hstarted']
            rfl
          · rw [List.filterMap_append, hpayloads, hpayloads', List.dropWhile_cons, hhost, hread]
            show _ = (List.filter Message.read (message :: messages)).map _
            rw [List.filter_cons, hread]
            rfl

/-- With a client the calls return iff every line has a second word. -/
theorem swiftProxyRun_bound_returns_iff {c : List UInt8} :
    (swiftProxyRun behind (some c) messages).Returns ↔
      ∀ m ∈ messages, ∀ line, m.hostLine = some line → 2 ≤ (words line).length := by
  induction messages with
  | nil => exact ⟨fun _ _ hm => (List.not_mem_nil hm).elim, fun _ => ⟨_, rfl⟩⟩
  | cons message messages ih =>
      have hcall := swiftProxyReceive_ok behind (some c) message
      rw [List.forall_mem_cons, ← ih]
      constructor
      · rintro ⟨⟨_, _⟩, h⟩
        obtain ⟨client₁, es, es', hreceive, hrest, rfl⟩ := swiftProxyRun_cons.mp h
        obtain rfl : client₁ = some c := (hcall.2 _ _ hreceive).bound
        exact ⟨(hcall.1.mp ⟨_, hreceive⟩).1, _, hrest⟩
      · rintro ⟨hlines, ⟨_, _⟩, hrest⟩
        obtain ⟨⟨client₁, es⟩, hreceive⟩ := hcall.1.mpr ⟨hlines, nofun⟩
        obtain rfl : client₁ = some c := (hcall.2 _ _ hreceive).bound
        exact ⟨_, swiftProxyRun_cons.mpr ⟨_, _, _, hreceive, hrest, rfl⟩⟩

/-- **When a connection to the Swift proxy does not trap.** The calls of the data handler for any messages all
    return iff every message has a second word in its second line, if `next` returns a second line, and for the
    first message that names a host this can be looked up and a socket created. Whether the connection to it
    succeeds is no matter. -/
theorem swift_proxy_returns_iff (behind : List UInt8 → Nat → UInt8) (messages : List Message) :
    (swiftProxyRun behind none messages).Returns ↔
      (∀ m ∈ messages, ∀ line, m.hostLine = some line → 2 ≤ (words line).length) ∧
        ∀ m, messages.find? (fun m => m.host.isSome) = some m → m.reachable = true := by
  induction messages with
  | nil => exact ⟨fun _ => ⟨fun _ hm => (List.not_mem_nil hm).elim, nofun⟩, fun _ => ⟨_, rfl⟩⟩
  | cons message messages ih =>
      have hcall := swiftProxyReceive_ok behind none message
      rw [List.forall_mem_cons, List.find?_cons]
      -- the rest of the calls find the client that this one leaves
      have hrun : (swiftProxyRun behind none (message :: messages)).Returns ↔
          ((∀ line, message.hostLine = some line → 2 ≤ (words line).length) ∧
            (message.host.isSome → message.reachable = true)) ∧
          (swiftProxyRun behind message.host messages).Returns := by
        constructor
        · rintro ⟨⟨_, _⟩, h⟩
          obtain ⟨client₁, es, es', hreceive, hrest, rfl⟩ := swiftProxyRun_cons.mp h
          obtain rfl : client₁ = message.host := (hcall.2 _ _ hreceive).bound
          obtain ⟨hlines, hreach⟩ := hcall.1.mp ⟨_, hreceive⟩
          exact ⟨⟨hlines, hreach rfl⟩, _, hrest⟩
        · rintro ⟨⟨hlines, hreach⟩, ⟨_, _⟩, hrest⟩
          obtain ⟨⟨client₁, es⟩, hreceive⟩ := hcall.1.mpr ⟨hlines, fun _ => hreach⟩
          obtain rfl : client₁ = message.host := (hcall.2 _ _ hreceive).bound
          exact ⟨_, swiftProxyRun_cons.mpr ⟨_, _, _, hreceive, hrest, rfl⟩⟩
      rw [hrun]
      cases hhost : message.host with
      | none =>
          rw [ih]
          constructor
          · rintro ⟨⟨hlines, _⟩, hrest, hfirst⟩
            exact ⟨⟨hlines, hrest⟩, hfirst⟩
          · rintro ⟨⟨hlines, hrest⟩, hfirst⟩
            exact ⟨⟨hlines, nofun⟩, hrest, hfirst⟩
      | some host =>
          rw [swiftProxyRun_bound_returns_iff]
          constructor
          · rintro ⟨⟨hlines, hreach⟩, hrest⟩
            refine ⟨⟨hlines, hrest⟩, ?_⟩
            intro m hm
            cases hm
            exact hreach rfl
          · rintro ⟨⟨hlines, hrest⟩, hfirst⟩
            exact ⟨⟨hlines, fun _ => hfirst message rfl⟩, hrest⟩

end Run

/-- `"GET /\r\nHost: b\r\n"`. -/
def getFromB : List UInt8 := [71, 69, 84, 32, 47, 13, 10, 72, 111, 115, 116, 58, 32, 98, 13, 10]

def Message.ofBytes (bytes : List UInt8) : Message := { data := .ofBytes bytes fun _ => 0, reachable := true }

/-- `"hi"` comes before the request and is lost, `"?"` is sent back, and `"bye"` comes after it. -/
theorem swift_proxy_passes_on_getFromB :
    ∃ client effects, swiftProxyRun (fun _ _ => 0) none
        [.ofBytes [104, 105], .ofBytes [63], .ofBytes getFromB, .ofBytes [98, 121, 101]] = .ok (client, effects) ∧
      client = some [98] ∧ effects.filterMap ProxyEffect.payload = [getFromB, [98, 121, 101]] := by
  have hrun : swiftProxyRun (fun _ _ => 0) none
      [.ofBytes [104, 105], .ofBytes [63], .ofBytes getFromB, .ofBytes [98, 121, 101]] =
        .ok (some [98], [.toGuest [63], .start [98] getFromB, .toHost [98, 121, 101]]) := by decide +kernel
  obtain ⟨_, _, hpayloads⟩ := swift_proxy_passes_on hrun
  have hkept : ((([.ofBytes [104, 105], .ofBytes [63], .ofBytes getFromB, .ofBytes [98, 121, 101]] :
      List Message).dropWhile fun m => m.host.isNone).filter Message.read).map (fun m => m.data.contents) =
        [getFromB, [98, 121, 101]] := by decide +kernel
  exact ⟨_, _, hrun, rfl, hpayloads.trans hkept⟩

end SpartanX
