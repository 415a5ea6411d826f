import Vmecs.Pub.Type

/-!
# Socket addresses (`pub/socket.h`)

A `socket_sockaddr_t` is memory that is read as a `sockaddr_in` or a `sockaddr_in6`, according to
the family it says it has. The two layouts agree on the family and the port; the four bytes that are
the address in the one are the flow information in the other.
-/

namespace Vmecs

/-- `sin_family`: the families the program distinguishes. -/
inductive SockFamily where
  | inet
  | inet6
  deriving DecidableEq

/-- `socket_sockaddr_t`, by the structure that was stored in it. -/
inductive SockAddr where
  | sin (family : SockFamily) (port : UInt16) (addr : Block 4)
  | sin6 (family : SockFamily) (port : UInt16) (flowinfo : Block 4) (addr : Block 16)
  deriving DecidableEq

/-- `ss_family`. -/
def SockAddr.family : SockAddr → SockFamily
  | sin family _ _ => family
  | sin6 family _ _ _ => family

/-- `socket_sockaddr_port`. -/
def socketSockaddrPort : SockAddr → UInt16
  | .sin _ port _ => port
  | .sin6 _ port _ _ => port

/-- `socket_sockaddr_is_ipv4`. -/
def socketSockaddrIsIpv4 (addr : SockAddr) : Bool := addr.family = .inet

/-- `socket_sockaddr_get_ipv4`, behind its assertion: the four bytes where a `sockaddr_in` has its
address. -/
def socketSockaddrGetIpv4 : SockAddr → Block 4
  | .sin _ _ addr => addr
  | .sin6 _ _ flowinfo _ => flowinfo

/-- `socket_sockaddr_ipv4`. -/
def socketSockaddrIpv4 (ip : Block 4) (port : UInt16) : SockAddr := .sin .inet port ip

/-- `socket_sockaddr_ipv6`; the family it stores is `AF_INET`. -/
def socketSockaddrIpv6 (ip : Block 16) (port : UInt16) : SockAddr :=
  .sin6 .inet port ⟨[0, 0, 0, 0], rfl⟩ ip

end Vmecs
