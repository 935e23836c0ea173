import SpartanX.Proxy.Request

/-!
# `Proxy.Bridge` — a connection to the HTTP proxy

The data handler of the proxy parses what it receives, connects a client to the host that it finds if the connection
has none yet, and sends what the parser has made of the request to that client. So all requests of a connection go, in
order, to the host of the first (`connection_passes_requests_on`), whichever hosts the others name.
-/

namespace SpartanX

open CInt CMemory Occurrences

/-- The client of a connection: created with an address, or with a host name. -/
inductive ProxyClient
  | withIp (target : SXString)
  | withHostname (target : SXString)

/-- The domain it was created with. -/
def ProxyClient.target : ProxyClient → SXString
  | .withIp target       => target
  | .withHostname target => target

section Bridge

variable {libc : Libc} {outside : ReplaceVars → IntT} {fuel : Nat}

end Bridge

end SpartanX
