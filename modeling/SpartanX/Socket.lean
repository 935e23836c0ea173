import SpartanX.Object

/-!
# `Socket` — `sx_socket_t` and the server socket of `SXSocket.c`

The system calls are outside the program: what one call of `SXCreateServerSocket` gets back from them is a
record of outcomes (`SocketCalls`). A result `none` of a model function means that the process crashes there
(a `NULL` pointer is dereferenced).
-/

namespace SpartanX

open CInt

/-- The address families the code distinguishes. -/
inductive AddressFamily
  | unspec
  | inet
  | inet6
  | other (n : Nat)
  deriving DecidableEq, Repr

/-- The socket types the code distinguishes. -/
inductive SocketType
  | stream
  | dgram
  | other (n : Nat)
  deriving DecidableEq, Repr

/-- `struct sockaddr_storage` as the code fills it: family, port in network byte order, address and length. -/
structure SockAddr where
  family : AddressFamily := .unspec
  port   : BitVec 16     := 0
  host   : BitVec 128    := 0
  len    : Nat           := 0
  deriving DecidableEq, Repr

/-- `sx_socket_t`. -/
structure Socket where
  obj      : ObjHeader     := {}
  sockfd   : IntT          := 0
  protocol : IntT          := 0
  domain   : AddressFamily := .unspec
  type     : SocketType    := .other 0
  port     : BitVec 16     := 0
  addr     : SockAddr      := {}
  deriving DecidableEq, Repr

/-- What the system calls of one `SXCreateServerSocket` return; `socket` is `none` for `-1`. -/
structure SocketCalls where
  calloc    : Bool        := true
  socket    : Option IntT := some 3
  reuseAddr : Bool        := true
  noSigpipe : Bool        := true
  bind      : Bool        := true
  deriving DecidableEq, Repr

/-- `htons` on a little-endian host. -/
def htons (x : BitVec 16) : BitVec 16 := x <<< 8 ||| x >>> 8

/-- `ERR_RET(err)` under a condition: `*err_ret` is assigned and the function goes on. The list holds the
    values assigned so far. -/
def errRet (writes : List SXError) (failed : Bool) (err : SXError) : List SXError :=
  if failed then writes ++ [err] else writes

/-- `SXCreateServerSocket`: the values it assigns to `*err_ret`, in order (the caller finds the last one), and
    the socket it returns. -/
def sxCreateServerSocket (calls : SocketCalls) (port : BitVec 16) (domain : AddressFamily)
    (type : SocketType) (protocol : IntT) : Option (List SXError × Option Socket) :=
  let writes := errRet [] (!calls.calloc) sxErrorMemAlloc
  -- after a failed allocation the next statement writes through the `NULL` pointer
  if calls.calloc = false then none
  else
    let sockPtr : Socket :=
      { domain := domain, type := type, protocol := protocol, port := port
        obj := sxObjInit {} .freeSocket, sockfd := calls.socket.getD (-1) }
    let writes := errRet writes calls.socket.isNone sxErrorSysSocket
    let bindTo (addr : SockAddr) : Option (List SXError × Option Socket) :=
      let writes := errRet writes (!calls.reuseAddr) sxErrorSysSetsockopt
      let writes := errRet writes (!calls.noSigpipe) sxErrorSysSetsockopt
      let writes := errRet writes (!calls.bind) sxErrorSysBind
      some (errRet writes true sxSuccess, some { sockPtr with addr := { addr with family := domain } })
    match domain with
    | .inet  => bindTo { host := 0, port := htons port, len := 16 }
    | .inet6 => bindTo { host := 0, port := htons port, len := 28 }
    | _      => some (errRet writes true sxErrorInvalidIpaddr, none)

end SpartanX
