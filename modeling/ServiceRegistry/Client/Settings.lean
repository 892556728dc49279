/-! # Settings of a client

All times are in milliseconds. A tick interval of 0 counts as 1, and a full scan is due after as
many ticks as fit into the scan interval, but at least one. -/

namespace ServiceRegistry

/-- The settings of a discovery client. -/
structure Settings where
  /-- Discovery is off unless it is switched on. -/
  enabled : Bool := false
  /-- May a client that can announce do so? -/
  announceEnabled : Bool := true
  /-- Which store to connect to. -/
  connect : String := "memory"
  root : String := "/ness/srvc"
  scanInterval : Nat := 120000
  tickInterval : Nat := 100
  rpcTimeout : Nat := 500
  sessionTimeout : Nat := 3000
  penaltyTime : Nat := 600000
  worldChangeTimeout : Nat := 10000
  startupWait : Nat := 1000
deriving DecidableEq, Repr

namespace Settings

/-- The time between two ticks. -/
def tick (c : Settings) : Nat := max 1 c.tickInterval

/-- The number of ticks between two full scans. -/
def scanTicks (c : Settings) : Nat := max 1 (c.scanInterval / c.tick)

theorem tick_pos (c : Settings) : 0 < c.tick := by unfold tick; omega

theorem scanTicks_pos (c : Settings) : 0 < c.scanTicks := by unfold scanTicks; omega

end Settings

end ServiceRegistry
