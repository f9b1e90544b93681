import Inventory.Telemetry.Relay

/-! The relay call by call. A message goes to one service after another, and anything may be posted
between two calls, by a service too. The loop turns to the queue again when all calls of a message
have been made. -/
namespace Inventory.Telemetry

variable {ρ : Type}

namespace Relay

/-- The record that a step posts. Without a sink nothing can be posted. -/
def offered (relay : Relay ρ) : Step ρ → List ρ
  | .post r => if relay.sinks ≠ 0 then [r] else []
  | _ => []

/-- The record that a step puts into the queue. -/
def taken (relay : Relay ρ) : Step ρ → List ρ
  | .post r => if relay.sinks ≠ 0 ∧ relay.phase = .forwarding then [r] else []
  | _ => []

end Relay

structure Delivery (ρ : Type) where
  /-- What the loop has set out to send. -/
  relay : Relay ρ
  /-- How many of its calls have been made. -/
  made : Nat := 0
  deriving DecidableEq, Repr

namespace Delivery

def start (services : Nat) : Delivery ρ := { relay := .start services }

/-- There is a call to make. -/
def busy (d : Delivery ρ) : Bool := d.made < d.relay.sent.length

/-- The steps of the relay, but the loop makes its calls first, one at a step. -/
def step (d : Delivery ρ) (s : Step ρ) : Delivery ρ :=
  match s with
  | .receive =>
    if d.busy then { d with made := d.made + 1 } else { d with relay := d.relay.step s }
  | .noticeShutdown => if d.busy then d else { d with relay := d.relay.step s }
  | s => { d with relay := d.relay.step s }

def run (d : Delivery ρ) (steps : List (Step ρ)) : Delivery ρ := steps.foldl step d

/-- The relay as the services know it. -/
def seen (d : Delivery ρ) : Relay ρ := { d.relay with sent := d.relay.sent.take d.made }

/-- The loop is over. -/
def ended (d : Delivery ρ) : Bool := d.relay.phase = .finished && !d.busy

/-- The records that were posted in the course of these steps. -/
def posted (d : Delivery ρ) : List (Step ρ) → List ρ
  | [] => []
  | s :: steps => d.relay.offered s ++ (d.step s).posted steps

/-- The records that entered the queue in the course of these steps, in their order. -/
def entered (d : Delivery ρ) : List (Step ρ) → List ρ
  | [] => []
  | s :: steps => d.relay.taken s ++ (d.step s).entered steps

end Delivery

end Inventory.Telemetry
