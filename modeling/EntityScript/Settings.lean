/-! # Settings -/

namespace EntityScript

structure Settings where
  initEvent : String := "init"
  tickEvent : String := "tick"
  /-- The name of the builtin that calls the host. -/
  hostEvent : String := "host"
  /-- Whether arguments beyond the parameters of an event are a fault. -/
  strictArity : Bool := true
  sweepAfterPulse : Bool := true
  deriving DecidableEq, Repr, Inhabited

end EntityScript
