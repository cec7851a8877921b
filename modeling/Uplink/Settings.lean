import Uplink.RetryPlan

/-!
# Settings

Time bounds of the manager, in ticks of a microsecond, with their customary values.
-/

namespace Uplink

/-- Ticks of a second. -/
def second : Nat := 1000000

structure AssociationSettings where
  modeTimeout : Nat := 5 * second
  connectTimeout : Nat := 15 * second
  /-- How long to wait afterwards for the report that the station is up. -/
  stationUpTimeout : Nat := 5 * second
  deriving DecidableEq, Repr

structure Settings where
  /-- Longest wait of the main loop without any event. -/
  loopTimeout : Nat := 30 * second
  /-- Bound on the disconnect that a reconnect request brings. -/
  disconnectTimeout : Nat := second
  queryTimeout : Nat := 5 * second
  /-- When to repeat the queries of the module at startup. -/
  queryPlan : RetryPlan := .forever (10 * second)
  deriving DecidableEq, Repr

end Uplink
