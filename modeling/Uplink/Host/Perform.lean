import Uplink.Host.Basic

/-!
# What actions do

* `Action.perform`  what an action does to the host, and what it tells whoever took it;
* the instance of `Reactive`: an action of the agenda is performed and goes to the trace.
-/

namespace Uplink

namespace InterfaceChange

def applyTo (c : InterfaceChange) (i : Interface) : Interface :=
  { i with
    registerError := c.registerError.getD i.registerError
    startError := c.startError.getD i.startError
    stopError := c.stopError.getD i.stopError
    lease := c.lease.getD i.lease }

end InterfaceChange

namespace FeedChange

def applyTo (c : FeedChange) (p : Coprocessor) : Coprocessor where
  modes := p.modes.withQueue c.modes
  connections := p.connections.withQueue c.connections
  disconnections := p.disconnections.withQueue c.disconnections
  firmware := p.firmware.withQueue c.firmware
  addresses := p.addresses.withQueue c.addresses

def size (c : FeedChange) : Nat :=
  (c.modes.getD []).length + (c.connections.getD []).length + (c.disconnections.getD []).length +
    (c.firmware.getD []).length + (c.addresses.getD []).length

end FeedChange

namespace Action

def perform (a : Action) (h : Host) : ActionResult × Host :=
  match a with
  | reportCode code => (.nothing, h.report (RadioStatus.ofCode code))
  | report status => (.nothing, h.report status)
  | stackReady =>
    let r := h.signalAccepted (EventSet.single .linkStackReady)
    (.accepted r.1, r.2)
  | requestReconnect =>
    let r := h.signalAccepted (EventSet.single .reconnectRequested)
    (.accepted r.1, r.2)
  | signal events =>
    match h.signal events with
    | .ok h => (.signalled (.ok ()), h)
    | .error e => (.signalled (.error e), h)
  | observe snapshot => (.nothing, h.observe snapshot)
  | changeInterface flags ipv4 =>
    let s := h.interface.snapshot
    (.nothing, h.changeInterface (h.interface.withSnapshot
      { flags := flags.getD s.flags, ipv4 := ipv4.getD s.ipv4 }))
  | addWaiting n =>
    let c := h.queues.txWaiting.add n
    (.waiting c.count, { h with queues.txWaiting := c })
  | subWaiting n =>
    let c := h.queues.txWaiting.sub n
    (.waiting c.count, { h with queues.txWaiting := c })
  | writeStore ssid psk =>
    (.nothing, { h with store := ⟨ssid.getD h.store.ssid, psk.getD h.store.psk⟩ })
  | configureInterface change => (.nothing, { h with interface := change.applyTo h.interface })
  | configureCoprocessor change =>
    (.nothing, { h with coprocessor := change.applyTo h.coprocessor })

end Action

/-- An action of the agenda happens and goes to the trace. -/
instance : Reactive Action Host where
  react := fun now a h => (a.perform h).2.record (.fired now a (a.perform h).1)

end Uplink
