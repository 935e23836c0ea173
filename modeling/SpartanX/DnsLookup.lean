import SpartanX.Lib.Exec
import SpartanX.Socket

/-!
# `DnsLookup` — `dns_lookup` of `SXSocket.c` and `SXSockaddr.DNSLookup` in Swift

Both walk the list that `getaddrinfo` returned, from entry to entry, and take the address family of the first one
they can use. The cursor is moved on before it is used, so that the first entry of the list is never looked at, and
at the last one a null pointer is followed. The host is little-endian.

The cursor is the list from its entry on, the null pointer the empty list.
-/

namespace SpartanX

open CInt

/-! ## The list -/

/-- A `struct sockaddr`, read as the two kinds of it the code knows. -/
structure SockAddrBytes where
  sinAddr  : BitVec 32
  sin6Addr : BitVec 128
  deriving DecidableEq, Repr

/-- `struct addrinfo`: what `ai_addr` points to, and what stands at the place of a `struct sockaddr` that begins at
    the field `ai_addr` itself. -/
structure AddrInfo where
  family   : AddressFamily
  socktype : SocketType
  protocol : IntT
  addr     : SockAddrBytes
  atField  : SockAddrBytes
  deriving DecidableEq, Repr

/-- The family is one of the two the code knows. -/
def AddrInfo.Usable (e : AddrInfo) : Prop := e.family = .inet ∨ e.family = .inet6

instance (e : AddrInfo) : Decidable e.Usable := inferInstanceAs (Decidable (_ ∨ _))

/-- The address in a `struct sockaddr` of a family. -/
def SockAddrBytes.host (a : SockAddrBytes) : AddressFamily → BitVec 128
  | .inet  => a.sinAddr.setWidth 128
  | .inet6 => a.sin6Addr
  | _      => 0

/-- The first entry in list order whose family the code knows. -/
def firstUsable (list : List AddrInfo) : Option AddrInfo := list.find? fun e => e.Usable

/-! ## The functions -/

/-- The loop of `dns_lookup`; `service` is what `getservbyname` returns, with the port in network byte order. -/
def dnsLookupLoop (service : Option (BitVec 16)) (socket : Socket) : List AddrInfo → Exec Socket
  | []         => pure socket
  | _ :: cinfo => do
    -- cinfo = cinfo->ai_next
    let sPort ← Exec.ofOption service
    let port := htons sPort
    let socket := { socket with addr := {} }
    match cinfo with
    | []     => .fault
    | e :: _ =>
      match e.family with
      | .inet  =>
        pure { socket with
          domain   := .inet
          type     := e.socktype
          protocol := e.protocol
          addr     := { len := 16, family := .inet, host := e.atField.host .inet, port := port } }
      | .inet6 =>
        pure { socket with
          addr := { len := 28, family := .inet6, port := port, host := e.atField.host .inet6 } }
      | _      => dnsLookupLoop service socket cinfo

/-- `dns_lookup`; `info` is the list that `getaddrinfo` returns, if it succeeds. -/
def dnsLookup (info : Option (List AddrInfo)) (service : Option (BitVec 16)) (socket : Socket) :
    Exec (SXError × Socket) :=
  match info with
  | none      => pure (sxErrorSysGetAddrInfo, socket)
  | some info => do
    let socket ← dnsLookupLoop service socket info
    pure (sxSuccess, socket)

/-- `SXAddrError`, as far as `DNSLookup` throws it. -/
inductive SXAddrError
  | getAddrInfo
  deriving DecidableEq, Repr

/-- `SXSockaddr`, with the fields that `DNSLookup` fills. -/
inductive SXSockaddr
  | inet (sinPort : BitVec 16) (sinAddr : BitVec 32)
  | inet6 (sin6Port : BitVec 16) (sin6Addr : BitVec 128)
  deriving DecidableEq, Repr

/-- The loop of `DNSLookup`. -/
def swiftLookupLoop (service : Option (BitVec 16)) : List AddrInfo → Exec (Option SXSockaddr)
  | []         => pure none
  | _ :: cinfo => do
    -- cinfo = cinfo.memory.ai_next
    let sPort ← Exec.ofOption service
    -- CFSwapInt16HostToBig(sPort).byteSwapped
    let port := htons (htons sPort)
    match cinfo with
    | []     => .fault
    | e :: _ =>
      match e.family with
      | .inet  => pure (some (.inet port e.addr.sinAddr))
      | .inet6 => pure (some (.inet6 port e.addr.sin6Addr))
      | _      => swiftLookupLoop service cinfo

/-- `SXSockaddr.DNSLookup`: what it throws, or returns. -/
def swiftDNSLookup (info : Option (List AddrInfo)) (service : Option (BitVec 16)) :
    Exec (Except SXAddrError (Option SXSockaddr)) :=
  match info with
  | none      => pure (.error .getAddrInfo)
  | some info => do
    let ret ← swiftLookupLoop service info
    pure (.ok ret)

/-! ## What they select -/

/-- What `dns_lookup` records of an entry. -/
def recordedC (port : BitVec 16) (socket : Socket) (e : AddrInfo) : Socket :=
  match e.family with
  | .inet =>
    { socket with
      domain   := .inet
      type     := e.socktype
      protocol := e.protocol
      addr     := { len := 16, family := .inet, host := e.atField.host .inet, port := htons port } }
  | _     =>
    { socket with addr := { len := 28, family := .inet6, port := htons port, host := e.atField.host .inet6 } }

/-- The address of an entry as an `SXSockaddr`. -/
def AddrInfo.sockaddr (port : BitVec 16) (e : AddrInfo) : SXSockaddr :=
  match e.family with
  | .inet => .inet port e.addr.sinAddr
  | _     => .inet6 port e.addr.sin6Addr

section Lookup

variable {list : List AddrInfo} {port : BitVec 16} {socket : Socket} {e e' : AddrInfo}

/-- The order of the bytes is changed back. -/
theorem htons_htons (x : BitVec 16) : htons (htons x) = x := by
  apply BitVec.eq_of_getLsbD_eq
  intro i hi
  simp only [htons, BitVec.getLsbD_or, BitVec.getLsbD_shiftLeft, BitVec.getLsbD_ushiftRight]
  rcases Nat.lt_or_ge i 8 with hlow | hhigh
  · have hin : 8 + i < 16 := by omega
    have hout : x.getLsbD (8 + (8 + i)) = false := BitVec.getLsbD_of_ge x _ (by omega)
    simp [hlow, hi, hin, hout]
  · have hlow : i - 8 < 8 := by omega
    have hback : 8 + (i - 8) = i := by omega
    have hin : ¬ 8 + i < 16 := by omega
    have hout : x.getLsbD (8 + (8 + i)) = false := BitVec.getLsbD_of_ge x _ (by omega)
    simp [Nat.not_lt.mpr hhigh, hlow, hi, hback, hin, hout]

theorem firstUsable_cons (e : AddrInfo) (list : List AddrInfo) :
    firstUsable (e :: list) = if e.Usable then some e else firstUsable list := by
  unfold firstUsable
  rw [List.find?_cons]
  by_cases h : e.Usable <;> simp [h]

theorem usable_of_firstUsable (h : firstUsable list = some e) : e.Usable := by
  have hfound := List.find?_some h
  exact of_decide_eq_true hfound

/-- **Which entry `dns_lookup` takes**: the first usable one behind the first entry of the list. Without one it
    follows a null pointer. -/
theorem dnsLookupLoop_cons (first : AddrInfo) : dnsLookupLoop (some port) socket (first :: list) =
    match firstUsable list with
    | none   => .fault
    | some e => .ok (recordedC port socket e) := by
  induction list generalizing first socket with
  | nil => rfl
  | cons e list ih =>
      rw [firstUsable_cons]
      unfold dnsLookupLoop
      cases hf : e.family with
      | inet | inet6 => simp [AddrInfo.Usable, hf, recordedC]
      | unspec | other n =>
          rw [if_neg (by simp [AddrInfo.Usable, hf])]
          simp only [Exec.ofOption_some, Exec.ok_bind, hf]
          rw [ih]
          cases firstUsable list with
          | none => rfl
          | some e' => cases hf' : e'.family <;> simp [recordedC, hf']

/-- Which entry `DNSLookup` takes: the same one. -/
theorem swiftLookupLoop_cons (first : AddrInfo) : swiftLookupLoop (some port) (first :: list) =
    match firstUsable list with
    | none   => .fault
    | some e => .ok (some (e.sockaddr port)) := by
  induction list generalizing first with
  | nil => rfl
  | cons e list ih =>
      rw [firstUsable_cons]
      unfold swiftLookupLoop
      cases hf : e.family with
      | inet | inet6 => simp [AddrInfo.Usable, hf, AddrInfo.sockaddr, htons_htons]
      | unspec | other n =>
          rw [if_neg (by simp [AddrInfo.Usable, hf])]
          simp only [Exec.ofOption_some, Exec.ok_bind, hf]
          exact ih e

/-! ## The rule -/

/-- What `dns_lookup` should do: record the first usable entry and the port, and report an error without one. -/
def LooksUp (list : List AddrInfo) (port : BitVec 16) (outcome : Exec (SXError × Socket)) : Prop :=
  match firstUsable list with
  | some e => ∃ socket, outcome = .ok (sxSuccess, socket) ∧ socket.domain = e.family ∧ socket.type = e.socktype ∧
      socket.protocol = e.protocol ∧ socket.addr.family = e.family ∧ socket.addr.port = port ∧
      socket.addr.host = e.addr.host e.family
  | none   => ∃ err socket, outcome = .ok (err, socket) ∧ err ≠ sxSuccess

/-- What `DNSLookup` should do: return the address of the first usable entry with the port, and nil without one. -/
def SwiftLooksUp (list : List AddrInfo) (port : BitVec 16)
    (outcome : Exec (Except SXAddrError (Option SXSockaddr))) : Prop :=
  outcome = .ok (.ok ((firstUsable list).map fun e => e.sockaddr port))

/-- What is recorded of entry `e` when entry `e'` is taken is what should be: they are of one family; what stands at
    the field `ai_addr` of the one is the address of the other, and the port reads the same in both byte orders; the
    type and the protocol are the same, or for IPv6 those that the socket had already. -/
structure RecordsAs (port : BitVec 16) (socket : Socket) (e' e : AddrInfo) : Prop where
  family : e'.family = e.family
  host   : e'.atField.host e'.family = e.addr.host e.family
  port   : htons port = port
  inet   : e'.family = .inet → e'.socktype = e.socktype ∧ e'.protocol = e.protocol
  inet6  : e'.family = .inet6 →
    socket.domain = e.family ∧ socket.type = e.socktype ∧ socket.protocol = e.protocol

theorem recordedC_iff (h : e'.Usable) :
    ((recordedC port socket e').domain = e.family ∧ (recordedC port socket e').type = e.socktype ∧
      (recordedC port socket e').protocol = e.protocol ∧ (recordedC port socket e').addr.family = e.family ∧
      (recordedC port socket e').addr.port = port ∧ (recordedC port socket e').addr.host = e.addr.host e.family) ↔
      RecordsAs port socket e' e := by
  rcases h with hf | hf
  · have hrec : recordedC port socket e' = { socket with
        domain := .inet, type := e'.socktype, protocol := e'.protocol
        addr   := { len := 16, family := .inet, host := e'.atField.host .inet, port := htons port } } := by
      simp [recordedC, hf]
    rw [hrec]
    constructor
    · rintro ⟨hdomain, htype, hprotocol, _, hport, hhost⟩
      exact ⟨hf.trans hdomain, by rw [hf]; exact hhost, hport, fun _ => ⟨htype, hprotocol⟩,
        fun h6 => absurd (hf.symm.trans h6) (by decide)⟩
    · intro h
      exact ⟨hf.symm.trans h.family, (h.inet hf).1, (h.inet hf).2, hf.symm.trans h.family, h.port,
        (hf ▸ h.host :)⟩
  · have hrec : recordedC port socket e' = { socket with
        addr := { len := 28, family := .inet6, port := htons port, host := e'.atField.host .inet6 } } := by
      simp [recordedC, hf]
    rw [hrec]
    constructor
    · rintro ⟨hdomain, htype, hprotocol, hfamily, hport, hhost⟩
      exact ⟨hf.trans hfamily, by rw [hf]; exact hhost, hport, fun h4 => absurd (hf.symm.trans h4) (by decide),
        fun _ => ⟨hdomain, htype, hprotocol⟩⟩
    · intro h
      obtain ⟨hdomain, htype, hprotocol⟩ := h.inet6 hf
      exact ⟨hdomain, htype, hprotocol, hf.symm.trans h.family, h.port, (hf ▸ h.host :)⟩

/-- There is a first usable entry if there is one behind the first entry. -/
theorem firstUsable_of_tail (first : AddrInfo) (h : firstUsable list = some e) :
    ∃ e', firstUsable (first :: list) = some e' := by
  rw [firstUsable_cons]
  split
  · exact ⟨first, rfl⟩
  · exact ⟨e, h⟩

/-- `dns_lookup` follows the rule iff there is a usable entry behind the first one, and what it records of it is what
    the rule says of the first usable one. -/
theorem dnsLookup_looksUp_iff : LooksUp list port (dnsLookup (some list) (some port) socket) ↔
    ∃ e', firstUsable list.tail = some e' ∧ ∃ e, firstUsable list = some e ∧ RecordsAs port socket e' e := by
  cases list with
  | nil =>
      constructor
      · rintro ⟨err, socket', hok, hne⟩
        exact absurd (congrArg Prod.fst (Exec.ok.inj hok)).symm hne
      · rintro ⟨e', h, _⟩
        cases h
  | cons first rest =>
      unfold dnsLookup LooksUp
      dsimp only
      rw [dnsLookupLoop_cons, List.tail_cons]
      cases hrest : firstUsable rest with
      | none =>
          constructor
          · intro h
            split at h
            · obtain ⟨_, hok, _⟩ := h
              cases hok
            · obtain ⟨_, _, hok, _⟩ := h
              cases hok
          · rintro ⟨e', h, _⟩
            cases h
      | some e' =>
          obtain ⟨e, he⟩ := firstUsable_of_tail first hrest
          have husable := usable_of_firstUsable hrest
          rw [he]
          constructor
          · rintro ⟨socket', hok, hfields⟩
            obtain rfl := congrArg Prod.snd (Exec.ok.inj hok)
            exact ⟨e', rfl, e, rfl, (recordedC_iff husable).mp hfields⟩
          · rintro ⟨_, h₁, _, h₂, hrecords⟩
            cases h₁
            cases h₂
            exact ⟨_, rfl, (recordedC_iff husable).mpr hrecords⟩

/-- `DNSLookup` follows the rule iff the list is empty, or there is a usable entry behind the first one with the
    address of the first usable one. -/
theorem swiftDNSLookup_looksUp_iff : SwiftLooksUp list port (swiftDNSLookup (some list) (some port)) ↔
    list = [] ∨ ∃ e', firstUsable list.tail = some e' ∧ ∃ e, firstUsable list = some e ∧
      e'.sockaddr port = e.sockaddr port := by
  cases list with
  | nil => simp [SwiftLooksUp, swiftDNSLookup, swiftLookupLoop, firstUsable]
  | cons first rest =>
      unfold swiftDNSLookup SwiftLooksUp
      dsimp only
      rw [swiftLookupLoop_cons, List.tail_cons]
      cases hrest : firstUsable rest with
      | none =>
          constructor
          · intro h
            cases h
          · rintro (h | ⟨e', h, _⟩)
            · cases h
            · cases h
      | some e' =>
          obtain ⟨e, he⟩ := firstUsable_of_tail first hrest
          rw [he]
          constructor
          · intro h
            have hsome : some (e'.sockaddr port) = some (e.sockaddr port) := Except.ok.inj (Exec.ok.inj h)
            exact Or.inr ⟨e', rfl, e, rfl, Option.some.inj hsome⟩
          · rintro (h | ⟨_, h₁, _, h₂, hsame⟩)
            · cases h
            · cases h₁
              cases h₂
              show Exec.ok (Except.ok (some (e'.sockaddr port))) = Exec.ok (Except.ok (some (e.sockaddr port)))
              rw [hsame]

/-- **When the lookups take the first usable address.** For every list that `getaddrinfo` returns, and a service that
    is found. -/
theorem lookups_first_usable_iff (list : List AddrInfo) (port : BitVec 16) (socket : Socket) :
    (LooksUp list port (dnsLookup (some list) (some port) socket) ↔
      ∃ e', firstUsable list.tail = some e' ∧ ∃ e, firstUsable list = some e ∧ RecordsAs port socket e' e) ∧
    (SwiftLooksUp list port (swiftDNSLookup (some list) (some port)) ↔
      list = [] ∨ ∃ e', firstUsable list.tail = some e' ∧ ∃ e, firstUsable list = some e ∧
        e'.sockaddr port = e.sockaddr port) :=
  ⟨dnsLookup_looksUp_iff, swiftDNSLookup_looksUp_iff⟩

end Lookup

/-- The entry of a host that has one address, 127.0.0.1, in a list of its own. -/
def loopbackInfo : AddrInfo where
  family   := .inet
  socktype := .stream
  protocol := 6
  addr     := { sinAddr := 0x0100007f#32, sin6Addr := 0 }
  atField  := { sinAddr := 0x00007fff#32, sin6Addr := 0 }

/-- Its one usable entry is passed over, and both lookups follow the null pointer behind it. In a longer list
    `dns_lookup` records of the second entry half of the pointer to its address, and port 80 with its bytes swapped;
    for an empty list it reports success. -/
theorem lookups_pass_first :
    dnsLookup (some [loopbackInfo]) (some (htons 80)) {} = .fault ∧
      swiftDNSLookup (some [loopbackInfo]) (some (htons 80)) = .fault ∧
      ¬ LooksUp [loopbackInfo] (htons 80) (dnsLookup (some [loopbackInfo]) (some (htons 80)) {}) ∧
      ¬ SwiftLooksUp [loopbackInfo] (htons 80) (swiftDNSLookup (some [loopbackInfo]) (some (htons 80))) ∧
      (∃ socket, dnsLookup (some [loopbackInfo, loopbackInfo]) (some (htons 80)) {} = .ok (sxSuccess, socket) ∧
        socket.addr.host = 0x00007fff ∧ socket.addr.port = 80) ∧
      dnsLookup (some []) (some (htons 80)) {} = .ok (sxSuccess, {}) := by
  refine ⟨rfl, rfl, ?_, ?_, ⟨_, rfl, by decide, by decide⟩, rfl⟩
  · rintro ⟨socket, hok, _⟩
    cases hok
  · intro h
    cases h

end SpartanX
