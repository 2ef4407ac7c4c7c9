import Azbridge.Runtime.Preflight

/-!
# What the check before binding predicts

Which bindings `start` is sure to reach, and when the check and `start` agree whatever addresses each
of them picks.
-/

namespace Azbridge.Runtime.Preflight

section Starting

variable {resolver : Resolver} {lowercase : String → String} {supplies : Supplies} {config : Config} {hash : Position → Nat}
  {entry : Entry} {addr : SocketAddr}

/-- The listeners as far as the first failure. -/
def taken : List (Except String (Option LocalListener)) → List LocalListener
  | [] | .error _ :: _ => []
  | .ok listener :: rest => listener.toList ++ taken rest

end Starting

section Predicting

variable {resolver : Resolver} {lowercase : String → String} {supplies : Supplies} {config : Config}

/-- Two bindings on one port, in a host that binds addresses of this family. -/
def twice (family : String) : Config where
  addressFamily := some family
  localForward := [{ relayName := "r", bindings := [{ bindPort := 8080 }, { bindPort := 8080, portName := some "other" }] }]

end Predicting

end Azbridge.Runtime.Preflight
