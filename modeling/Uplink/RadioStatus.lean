/-!
# The status of the radio

The co-processor reports its connection as one byte.  Six codes are known; every other code is
kept as it came.

* `RadioStatus.ofCode`, `RadioStatus.code`          reading and writing the byte;
* `carriesTraffic`, `isAssociated`, `mayAssociate`  what a status allows;
* `RadioStatus.code_ofCode`                         a byte that was read is written back.
-/

namespace Uplink

/-- The connection as the co-processor reports it. -/
inductive RadioStatus where
  | none
  | stationDown
  | stationUp
  | stationGotIp
  | apDown
  | apUp
  /-- A code outside the known six, or one given as such. -/
  | unknown (code : UInt8)
  deriving DecidableEq, Repr

namespace RadioStatus

def ofCode (code : UInt8) : RadioStatus :=
  match code.toNat with
  | 0 => none
  | 1 => stationDown
  | 2 => stationUp
  | 3 => stationGotIp
  | 4 => apDown
  | 5 => apUp
  | _ => unknown code

def code : RadioStatus → UInt8
  | none => 0
  | stationDown => 1
  | stationUp => 2
  | stationGotIp => 3
  | apDown => 4
  | apUp => 5
  | unknown c => c

def text : RadioStatus → String
  | none => "None"
  | stationDown => "Station Down"
  | stationUp => "Station Up"
  | stationGotIp => "Station Got IP"
  | apDown => "AP Down"
  | apUp => "AP Up"
  | unknown _ => "Unknown"

/-- The radio link can carry traffic. -/
def carriesTraffic : RadioStatus → Bool
  | stationUp | stationGotIp | apUp => true
  | _ => false

def isAssociated : RadioStatus → Bool
  | stationUp | stationGotIp => true
  | _ => false

/-- An association attempt may start from this status. -/
def mayAssociate : RadioStatus → Bool
  | none | stationDown => true
  | _ => false

def isUnknown : RadioStatus → Bool
  | unknown _ => true
  | _ => false

theorem code_ofCode (c : UInt8) : (ofCode c).code = c := by
  unfold ofCode
  split <;> rename_i h <;> first | rfl | (apply UInt8.toNat_inj.mp; rw [h]; rfl)

theorem carriesTraffic_of_isAssociated {s : RadioStatus} (h : s.isAssociated = true) :
    s.carriesTraffic = true := by
  cases s <;> first | rfl | exact absurd h (by decide) | exact absurd h (by simp [isAssociated])

theorem mayAssociate_iff (s : RadioStatus) :
    s.mayAssociate = true ↔ s = none ∨ s = stationDown := by
  cases s <;> simp [mayAssociate]

theorem not_carriesTraffic_of_mayAssociate {s : RadioStatus}
    (h : s.mayAssociate = true) : s.carriesTraffic = false := by
  cases s <;> first | rfl | exact absurd h (by decide)

end RadioStatus

end Uplink
