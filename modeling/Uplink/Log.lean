import Uplink.Event
import Uplink.Fault
import Uplink.Hex
import Uplink.Phase

/-!
# The log

Everything that the manager and its parts have to tell, one constructor for each kind of message.
A line is the level of the message and its text.

* `LogEntry.level`, `LogEntry.text`  the two parts of a line;
* `LogEntry.line`                    the line.
-/

namespace Uplink

inductive LogLevel where
  | trace
  | debug
  | info
  | warn
  | error
  deriving DecidableEq, Repr

def LogLevel.name : LogLevel → String
  | trace => "TRACE"
  | debug => "DEBUG"
  | info => "INFO"
  | warn => "WARN"
  | error => "ERROR"

inductive LogEntry where
  -- waits on a mailbox
  | waitStarted (target : EventSet)
  | waitTimedOut (target : EventSet)
  -- producers
  | statusReported (previous current : RadioStatus)
  | statusDropped
  | interfaceChanged (events : EventSet)
  | interfaceChangeDropped
  -- association
  | connectSkipped (status : RadioStatus)
  | modeFailed (e : TransportFault)
  | credentialsUnavailable (e : AttemptFault)
  | connecting (ssid : String) (attempt : UInt32)
  | connectFailed (e : TransportFault)
  | associated
  | stationUpMissing (status : RadioStatus)
  -- transfer contexts
  | contextsStarted
  | resetStarted
  | chipSelectStuck
  -- startup
  | awaitingStack
  | stackReady
  | registerFailed (e : StackFault)
  | alreadyAssociated (status : RadioStatus)
  | queryFailed (e : TransportFault) (delay : Nat)
  | queryGivenUp (attempts : Nat) (e : TransportFault)
  | firmwareVersion (text : String)
  | hardwareAddress (mac : HardwareAddress)
  | startFailed (e : StartFault)
  -- main loop
  | loopTimedOut
  | unknownStatus (code : UInt8)
  | linkChanged (change : LinkChange) (status : RadioStatus)
  | addressReleased
  | releaseFailed (e : StackFault)
  | acquisitionStarted
  | acquisitionFailed (e : StackFault)
  | reconnecting
  | disconnectFailed (e : AttemptFault)
  | attemptFailed (e : AttemptFault)
  | phase (p : Phase)
  | addressChangeFailed (e : StackFault)
  deriving DecidableEq, Repr

namespace LogEntry

def level : LogEntry → LogLevel
  | interfaceChanged _ | loopTimedOut | phase _ => .trace
  | waitStarted _ | waitTimedOut _ | statusReported _ _ | statusDropped | interfaceChangeDropped
  | connectSkipped _ | contextsStarted | awaitingStack | alreadyAssociated _ | linkChanged _ _
  | addressChangeFailed _ => .debug
  | connecting _ _ | associated | resetStarted | stackReady | firmwareVersion _ | hardwareAddress _
  | addressReleased | acquisitionStarted | reconnecting => .info
  | stationUpMissing _ | chipSelectStuck | queryFailed _ _ | unknownStatus _ | disconnectFailed _
  | attemptFailed _ => .warn
  | modeFailed _ | credentialsUnavailable _ | connectFailed _ | registerFailed _ | queryGivenUp _ _
  | startFailed _ | releaseFailed _ | acquisitionFailed _ => .error

/-- The octets of a hardware address, joined by points. -/
def octets (mac : HardwareAddress) : String := ".".intercalate (mac.octets.toList.map Hex.octet)

def text : LogEntry → String
  | waitStarted t => "Starting wait for notification matching bitmask: " ++ Hex.mask t.toNat
  | waitTimedOut t =>
    "Timed out while waiting for notification matching bitmask: " ++ Hex.mask t.toNat
  | statusReported p c => "Co-processor status notification: " ++ p.text ++ " -> " ++ c.text
  | statusDropped => "Status update before the connection manager started"
  | interfaceChanged e => "Interface change events: " ++ Hex.mask e.toNat
  | interfaceChangeDropped => "Interface change before the connection manager started"
  | connectSkipped s => "Skipping connection attempt, status: " ++ s.text
  | modeFailed e => "Failed to select station mode: " ++ e.name
  | credentialsUnavailable e => "Access point credentials unavailable: " ++ e.name
  | connecting ssid n =>
    "Connecting to access point: " ++ ssid ++ " (attempt " ++ toString n.toNat ++ ")"
  | connectFailed e => "Failed to connect to access point: " ++ e.name
  | associated => "Associated with access point"
  | stationUpMissing s => "Station up not reported, status: " ++ s.text
  | contextsStarted => "Initializing co-processor contexts"
  | resetStarted => "Performing co-processor hardware reset..."
  | chipSelectStuck => "Failed to release co-processor chip select"
  | awaitingStack => "Waiting for the TCP/IP stack"
  | stackReady => "TCP/IP stack ready"
  | registerFailed e => "Failed to register network interface: " ++ e.name
  | alreadyAssociated s => "Already associated at startup: " ++ s.text
  | queryFailed e delay =>
    "Module query failed: " ++ e.name ++ ", retrying in " ++ toString (delay / 1000) ++ " ms"
  | queryGivenUp n e => "Module query failed after " ++ toString n ++ " attempts: " ++ e.name
  | firmwareVersion t => "Firmware Version: " ++ t
  | hardwareAddress mac => "HW Address: " ++ octets mac
  | startFailed e => "Failed to bring up network interface: " ++ e.name
  | loopTimedOut => "No network events before the loop timeout"
  | unknownStatus c =>
    "Unknown co-processor status " ++ toString c.toNat ++ ", forcing link up"
  | linkChanged a s => "Interface link " ++ a.name ++ " for status " ++ s.text
  | addressReleased => "Link down, released address and stopped DHCP"
  | releaseFailed e => "Failed to release DHCP lease: " ++ e.name
  | acquisitionStarted => "Link up, started DHCP"
  | acquisitionFailed e => "Failed to start DHCP: " ++ e.name
  | reconnecting => "Reconnect requested"
  | disconnectFailed e => "Disconnect before reconnect failed: " ++ e.name
  | attemptFailed e => "Connection attempt failed: " ++ e.message
  | phase p => "Connection state: " ++ p.text
  | addressChangeFailed e => "Address acquisition change failed: " ++ e.name

def line (e : LogEntry) : String := e.level.name ++ " " ++ e.text

end LogEntry

end Uplink
