import Uplink.Routine

/-!
# Sessions

A session performs steps one after the other and keeps an entry for each: what the step answered
and the timeline after it.  A step that comes to a halt is the last one.

* `Session.drive`  performs steps.
-/

namespace Uplink

/-- A step that was performed: its answer with the state after it, or its halt, and the timeline
after it. -/
structure Entry (α σ τ ρ : Type) where
  outcome : Except Halt (τ × ρ)
  after : Timeline α σ

namespace Session

variable {α σ τ ρ ι : Type}

/-- Performs steps from a state.  `clear` removes from the world what belongs to the entry of one
step.  Also returns where the session stands, unless a step came to a halt. -/
def drive (perform : τ → ι → Routine α σ (τ × ρ)) (clear : σ → σ) :
    τ → Timeline α σ → List ι → List (Entry α σ τ ρ) × Option (τ × Timeline α σ)
  | t, tl, [] => ([], some (t, tl))
  | t, tl, s :: rest =>
    match perform t s tl with
    | .ok r tl =>
      let further := drive perform clear r.1 { tl with world := clear tl.world } rest
      (⟨.ok r, tl⟩ :: further.1, further.2)
    | .error h tl => ([⟨.error h, tl⟩], none)

end Session

end Uplink
