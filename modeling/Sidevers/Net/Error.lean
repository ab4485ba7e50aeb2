/-
The errors of the network layer (`sidevers-net/src/error.rs`) that the
modelled functions raise. Transport errors of the QUIC library are one
constructor: no modelled function tells them apart.
-/
import Sidevers.Core.Cbor

namespace Sidevers.Net

/-- `sidevers_net::Error`. -/
inductive Error where
  | transport
  | core (e : Core.Error)
  | sqlite (msg : String)
  | handshakeDeclined (reason : String)
  | handshakeProtocol (msg : String)
  | wrongIntent (got intent : UInt8)
  | invariant (msg : String)
  deriving DecidableEq, Repr

end Sidevers.Net
