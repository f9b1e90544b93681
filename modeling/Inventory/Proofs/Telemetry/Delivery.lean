import Inventory.Telemetry.Delivery
import Mathlib.Data.List.Basic
import Mathlib.Data.List.Nodup

/-! What becomes of posted records. At every point of a run, what was sent and what still waits make
up what entered the queue, and the flushes come last. -/
namespace Inventory.Telemetry

variable {ρ : Type} {n service : Nat} {relay : Relay ρ} {d : Delivery ρ} {s : Step ρ}
  {steps : List (Step ρ)} {records entered : List ρ} {sent : List (Nat × Message ρ)}

def calls (n : Nat) (m : Message ρ) : List (Nat × Message ρ) := (List.range n).map (·, m)

def recordCalls (n : Nat) (records : List ρ) : List (Nat × Message ρ) :=
  records.flatMap fun r => calls n (.record r)

namespace Relay

/-- What the loop may do when it turns to the queue. -/
theorem receive_cases (relay : Relay ρ) :
    (relay.phase ≠ .draining ∧ relay.receive = relay) ∨
      (∃ r rest, relay.phase ≠ .finished ∧ relay.queue = r :: rest ∧
        relay.receive = { relay.broadcast (.record r) with queue := rest }) ∨
      (relay.phase ≠ .finished ∧ relay.queue = [] ∧
        (relay.phase = .draining ∨ relay.sinks = 0) ∧ relay.receive = relay.finish) := by
  cases phase : relay.phase with
  | finished => exact .inl ⟨by simp, by simp [receive, phase]⟩
  | draining =>
    cases queue : relay.queue with
    | nil => exact .inr (.inr ⟨by simp, rfl, .inl rfl, by simp [receive, phase, queue]⟩)
    | cons r rest => exact .inr (.inl ⟨r, rest, by simp, rfl, by simp [receive, phase, queue]⟩)
  | forwarding =>
    cases queue : relay.queue with
    | nil =>
      by_cases none : relay.sinks = 0
      · exact .inr (.inr ⟨by simp, rfl, .inr none, by simp [receive, phase, queue, none]⟩)
      · exact .inl ⟨by simp, by simp [receive, phase, queue, none]⟩
    | cons r rest => exact .inr (.inl ⟨r, rest, by simp, rfl, by simp [receive, phase, queue]⟩)

structure Accounts (n : Nat) (relay : Relay ρ) (entered : List ρ) : Prop where
  services : relay.services = n
  sent : ∃ delivered, entered = delivered ++ relay.queue ∧ relay.sent =
    recordCalls n delivered ++ if relay.phase = .finished then calls n .flush else []
  drained : relay.phase = .finished → relay.queue = []
  closed : relay.phase ≠ .forwarding → relay.stopping = true ∨ relay.sinks = 0

theorem Accounts.post (accounts : Accounts n relay entered) (r : ρ) :
    Accounts n (relay.post r) (entered ++ relay.taken (.post r)) := by
  unfold Relay.post taken
  split
  next here =>
    obtain ⟨delivered, rfl, sent⟩ := accounts.sent
    refine ⟨accounts.services, ⟨delivered, List.append_assoc .., sent⟩, fun ended => ?_,
      accounts.closed⟩
    exact absurd (here.2.symm.trans ended) (by simp)
  next => rwa [List.append_nil]

theorem Accounts.receive (accounts : Accounts n relay entered) :
    Accounts n relay.receive entered := by
  obtain ⟨delivered, split, sent⟩ := accounts.sent
  rcases relay.receive_cases with ⟨_, stays⟩ | ⟨r, rest, going, queue, takes⟩ |
    ⟨going, queue, last, ends⟩
  · rwa [stays]
  · rw [takes]
    refine ⟨accounts.services, ⟨delivered ++ [r], ?_, ?_⟩, fun ended => absurd ended going,
      accounts.closed⟩
    · rw [split, queue, List.append_assoc]
      rfl
    · have calls : (relay.broadcast (.record r)).sent =
          relay.sent ++ Telemetry.calls relay.services (.record r) := rfl
      simp only [calls, sent, accounts.services, recordCalls, List.flatMap_append]
      simp [broadcast, going]
  · rw [ends]
    refine ⟨accounts.services, ⟨delivered, split, ?_⟩, fun _ => queue, fun _ => ?_⟩
    · have calls : relay.finish.sent = relay.sent ++ Telemetry.calls relay.services .flush := rfl
      rw [calls, sent, if_neg going, List.append_nil, accounts.services]
      rfl
    · rcases last with shut | none
      · exact accounts.closed (by simp [shut])
      · exact .inr none

/-- Steps that post nothing keep the account. -/
theorem Accounts.advance (accounts : Accounts n relay entered) (other : ∀ r, s ≠ .post r) :
    Accounts n (relay.step s) entered := by
  cases s with
  | post r => exact absurd rfl (other r)
  | receive => exact accounts.receive
  | cloneSink =>
    rw [Relay.step]
    split
    · exact accounts
    next some =>
      refine ⟨accounts.services, accounts.sent, accounts.drained, fun shut => ?_⟩
      exact .inl ((accounts.closed shut).resolve_right some)
  | dropSink =>
    refine ⟨accounts.services, accounts.sent, accounts.drained, fun shut => ?_⟩
    exact (accounts.closed shut).imp_right fun none => congrArg (· - 1) none
  | requestShutdown =>
    exact ⟨accounts.services, accounts.sent, accounts.drained, fun _ => .inl rfl⟩
  | noticeShutdown =>
    rw [Relay.step]
    split
    next asked =>
      obtain ⟨delivered, split, sent⟩ := accounts.sent
      refine ⟨accounts.services, ⟨delivered, split, ?_⟩, nofun, fun _ => .inl asked.1⟩
      simpa [asked.2] using sent
    next => exact accounts

/-- Each step keeps the account, and notes what it puts into the queue. -/
theorem Accounts.step (accounts : Accounts n relay entered) (s : Step ρ) :
    Accounts n (relay.step s) (entered ++ relay.taken s) := by
  cases s with
  | post r => exact accounts.post r
  | receive | cloneSink | dropSink | requestShutdown | noticeShutdown =>
    exact (List.append_nil entered).symm ▸ accounts.advance nofun

end Relay

namespace Delivery

open Relay (Accounts)

/-- A step is one of the relay, or the loop is at its calls, and then the relay stays as it is. -/
theorem step_cases (d : Delivery ρ) (s : Step ρ) :
    d.step s = { d with relay := d.relay.step s } ∨
      ((d.step s).relay = d.relay ∧ d.relay.offered s = [] ∧ d.relay.taken s = []) := by
  cases s with
  | receive => cases busy : d.busy <;> simp [step, busy, Relay.offered, Relay.taken]
  | noticeShutdown => cases busy : d.busy <;> simp [step, busy, Relay.offered, Relay.taken]
  | post | cloneSink | dropSink | requestShutdown => exact .inl rfl

theorem run_cons (d : Delivery ρ) (s : Step ρ) (steps : List (Step ρ)) :
    d.run (s :: steps) = (d.step s).run steps := rfl

/-- The relay takes its own steps, and skips those of a loop that is at its calls. -/
theorem exists_run (d : Delivery ρ) (steps : List (Step ρ)) :
    ∃ own, own.Sublist steps ∧ (d.run steps).relay = d.relay.run own := by
  induction steps generalizing d with
  | nil => exact ⟨[], .slnil, rfl⟩
  | cons s steps ih =>
    obtain ⟨own, among, same⟩ := ih (d.step s)
    rcases d.step_cases s with moves | ⟨stays, _⟩
    · refine ⟨s :: own, among.cons_cons s, ?_⟩
      rw [run_cons, same, moves]
      rfl
    · refine ⟨own, among.cons s, ?_⟩
      rw [run_cons, same, stays]

/-- The most steps that the loop has still to take once the queue is closed. -/
def left (d : Delivery ρ) : Nat :=
  d.relay.sent.length - d.made +
    if d.relay.phase = .finished then 0 else (d.relay.queue.length + 1) * (d.relay.services + 1)

end Delivery

end Inventory.Telemetry
