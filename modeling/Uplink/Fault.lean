/-!
# Faults

What can go wrong, by the part that reports it.  Every fault has a `name`, the short form of the
log, and a `message`, the sentence for a reader.

* `TransportFault`  a request to the co-processor failed;
* `StackFault`      the TCP/IP stack refused a call;
* `MailboxFault`    a mailbox could not be addressed, set or claimed;
* `AttemptFault`    an association attempt failed;
* `StartFault`      the interface could not be brought up.
-/

namespace Uplink

/-- Two results are equal when both are errors, or both values, and those are equal. -/
instance Fault.decEqExcept {ε α : Type} [DecidableEq ε] [DecidableEq α] :
    DecidableEq (Except ε α)
  | .error a, .error b => decidable_of_iff (a = b) ⟨congrArg _, Except.error.inj⟩
  | .ok a, .ok b => decidable_of_iff (a = b) ⟨congrArg _, Except.ok.inj⟩
  | .error _, .ok _ => isFalse nofun
  | .ok _, .error _ => isFalse nofun

inductive TransportFault where
  | timeout
  /-- The command channel serves another request. -/
  | busy
  /-- The module answered with an error. -/
  | rejected
  /-- Framing or another failure inside the transport. -/
  | internal
  deriving DecidableEq, Repr

namespace TransportFault

def all : List TransportFault := [timeout, busy, rejected, internal]

def name : TransportFault → String
  | timeout => "Timeout"
  | busy => "Busy"
  | rejected => "Rejected"
  | internal => "Internal"

def message : TransportFault → String
  | timeout => "Co-processor request timed out"
  | busy => "Co-processor command channel busy"
  | rejected => "Co-processor rejected request"
  | internal => "Co-processor transport error"

end TransportFault

inductive StackFault where
  /-- Not possible in the present state of the stack. -/
  | rejected
  | outOfMemory
  | internal
  deriving DecidableEq, Repr

namespace StackFault

def all : List StackFault := [rejected, outOfMemory, internal]

def name : StackFault → String
  | rejected => "Rejected"
  | outOfMemory => "OutOfMemory"
  | internal => "Internal"

def message : StackFault → String
  | rejected => "Stack rejected request"
  | outOfMemory => "Stack out of memory"
  | internal => "Stack internal error"

end StackFault

inductive MailboxFault where
  | invalidIndex
  | notClaimed
  | alreadyClaimed
  deriving DecidableEq, Repr

namespace MailboxFault

def all : List MailboxFault := [invalidIndex, notClaimed, alreadyClaimed]

def name : MailboxFault → String
  | invalidIndex => "InvalidIndex"
  | notClaimed => "NotClaimed"
  | alreadyClaimed => "AlreadyClaimed"

def message : MailboxFault → String
  | invalidIndex => "Invalid mailbox index"
  | notClaimed => "Mailbox has no consumer"
  | alreadyClaimed => "Mailbox already claimed"

end MailboxFault

inductive AttemptFault where
  /-- No network name is stored for the access point. -/
  | missingCredentials
  /-- The stored name or key is too long or not UTF-8. -/
  | invalidCredentials
  | transport (e : TransportFault)
  deriving DecidableEq, Repr

namespace AttemptFault

def name : AttemptFault → String
  | missingCredentials => "MissingCredentials"
  | invalidCredentials => "InvalidCredentials"
  | transport e => "Transport(" ++ e.name ++ ")"

def message : AttemptFault → String
  | missingCredentials => "Access point credentials missing"
  | invalidCredentials => "Access point credentials invalid"
  | transport e => "Transport error: " ++ e.message

end AttemptFault

inductive StartFault where
  /-- The last allowed query of the module failed. -/
  | moduleQuery (e : TransportFault)
  | register (e : StackFault)
  deriving DecidableEq, Repr

namespace StartFault

def name : StartFault → String
  | moduleQuery e => "ModuleQuery(" ++ e.name ++ ")"
  | register e => "Register(" ++ e.name ++ ")"

def message : StartFault → String
  | moduleQuery e => "Module query failed: " ++ e.message
  | register e => "Interface registration failed: " ++ e.message

end StartFault

end Uplink
