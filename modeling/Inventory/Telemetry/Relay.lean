import Inventory.Telemetry.Record

/-! The relay between those who post records and the services that receive them. Posted records wait
in a queue, and one loop takes them out and passes each to all services in turn. Any number of
sinks post into the queue; their steps, those of the loop and the request to shut down may follow
one another in any order. -/
namespace Inventory.Telemetry

inductive Phase where
  /-- The loop waits for records and for the request to shut down. -/
  | forwarding
  /-- The queue takes no more records, and the loop empties it. -/
  | draining
  /-- The services have been flushed, and the loop is over. -/
  | finished
  deriving DecidableEq, Repr

/-- What a service receives. -/
inductive Message (ρ : Type) where
  | record (r : ρ)
  | flush
  deriving DecidableEq, Repr

structure Relay (ρ : Type) where
  services : Nat
  /-- Oldest first. -/
  queue : List ρ := []
  sinks : Nat := 1
  stopping : Bool := false
  phase : Phase := .forwarding
  /-- What was sent to which service, oldest first. -/
  sent : List (Nat × Message ρ) := []
  deriving DecidableEq, Repr

inductive Step (ρ : Type) where
  | post (r : ρ)
  | cloneSink
  | dropSink
  | requestShutdown
  /-- The loop takes a record, or ends if none can come any more. -/
  | receive
  /-- The loop takes notice of the request to shut down. -/
  | noticeShutdown
  deriving DecidableEq, Repr

namespace Relay

variable {ρ : Type}

/-- Sends one message to every service in turn. -/
def broadcast (relay : Relay ρ) (m : Message ρ) : Relay ρ :=
  { relay with sent := relay.sent ++ (List.range relay.services).map (·, m) }

def finish (relay : Relay ρ) : Relay ρ := { relay.broadcast .flush with phase := .finished }

/-- A record is queued while there is a sink to post it and the queue is open. -/
def post (relay : Relay ρ) (r : ρ) : Relay ρ :=
  if relay.sinks ≠ 0 ∧ relay.phase = .forwarding then { relay with queue := relay.queue ++ [r] }
  else relay

def receive (relay : Relay ρ) : Relay ρ :=
  match relay.phase, relay.queue with
  | .finished, _ => relay
  | _, r :: rest => { relay.broadcast (.record r) with queue := rest }
  | .draining, [] => relay.finish
  | .forwarding, [] => if relay.sinks = 0 then relay.finish else relay

/-- Steps that are not possible change nothing. -/
def step (relay : Relay ρ) : Step ρ → Relay ρ
  | .post r => relay.post r
  | .cloneSink => if relay.sinks = 0 then relay else { relay with sinks := relay.sinks + 1 }
  | .dropSink => { relay with sinks := relay.sinks - 1 }
  | .requestShutdown => { relay with stopping := true }
  | .receive => relay.receive
  | .noticeShutdown =>
    if relay.stopping ∧ relay.phase = .forwarding then { relay with phase := .draining } else relay

def run (relay : Relay ρ) (steps : List (Step ρ)) : Relay ρ := steps.foldl step relay

def start (services : Nat) : Relay ρ := { services }

/-- Requests the shutdown and lets the loop go on to its end. -/
def shutDown (relay : Relay ρ) : Relay ρ :=
  relay.run ([.requestShutdown, .noticeShutdown] ++
    List.replicate (relay.queue.length + 1) .receive)

/-- The records that a service has received. -/
def received (relay : Relay ρ) (service : Nat) : List ρ :=
  relay.sent.filterMap fun
    | (s, .record r) => if s = service then some r else none
    | _ => none

def flushes (relay : Relay ρ) (service : Nat) : Nat :=
  relay.sent.countP fun
    | (s, .flush) => s == service
    | _ => false

end Relay

end Inventory.Telemetry
