import Inventory.Graph.Shared
import Inventory.Proofs.Graph.Edges
import Inventory.Proofs.Shared

/-! Interleaved additions. An edge is written at its upper end first, so between two accesses it may
stand there alone, and then the call that wrote it is still in flight. The invariant keeps what each
call has reached beside what the graph holds. -/
namespace Inventory.Graph

variable {g h g₀ : Graph} {c : Addition} {t : Task} {calls : List Addition} {s : Shared Graph Task}

def Addition.Asks (c : Addition) (parent child : String) : Prop :=
  c.parent = some parent ∧ c.id = child ∧ parent ≠ child

/-- How far the call `c` has got when `t` is left of it, and what the graph then holds. The calls
began on `g₀`, so a parent that was looked up in vain is not in `g₀`. -/
inductive Reached (g₀ g : Graph) (c : Addition) : Task → Prop where
  | see : Reached g₀ g c (.see c)
  | link : c.Asks parent child → g.contains child = true → Reached g₀ g c (.link parent child)
  | backlink : c.Asks parent child → g.contains child = true → g.HasChild parent child →
      Reached g₀ g c (.backlink parent child)
  | report : c.Asks parent child → g.contains child = true → g₀.contains parent = false →
      Reached g₀ g c (.report parent child)
  | done : g.contains c.id = true →
      (∀ parent child, c.Asks parent child →
        (g.HasChild parent child ∧ g.HasParent child parent) ∨
          (g₀.contains parent = false ∧
            g.failures.contains (missingParent parent child) = true)) →
      Reached g₀ g c .done

/-- What a call has reached is not lost when the graph grows. -/
theorem Reached.mono (reached : Reached g₀ g c t) (grows : Within g h) : Reached g₀ h c t := by
  cases reached with
  | see => exact .see
  | link asks here => exact .link asks (grows.contains _ here)
  | backlink asks here edge =>
    exact .backlink asks (grows.contains _ here) (grows.hasChild _ _ edge)
  | report asks here absent => exact .report asks (grows.contains _ here) absent
  | done here settled =>
    refine .done (grows.contains _ here) fun parent child asks => ?_
    rcases settled parent child asks with ⟨down, up⟩ | ⟨absent, failed⟩
    · exact .inl ⟨grows.hasChild _ _ down, grows.hasParent _ _ up⟩
    · exact .inr ⟨absent, grows.failures _ failed⟩

theorem within_step (g : Graph) (t : Task) : Within g (t.step g).1 := by
  cases t with
  | see c => exact within_see g c.sighting
  | link parent child =>
    simp only [Task.step]
    split
    · exact within_addChild ..
    · exact .refl g
  | backlink => exact within_addParent ..
  | report => exact within_addFailure ..
  | done => exact .refl g

theorem hasChild_step (g : Graph) (t : Task) (a b : String) : (t.step g).1.HasChild a b ↔
    g.HasChild a b ∨ (t = .link a b ∧ g.contains a = true) := by
  cases t with
  | link parent child =>
    simp only [Task.step]
    split
    next there =>
      rw [hasChild_addChild]
      constructor
      · rintro (old | ⟨rfl, rfl, _⟩)
        · exact .inl old
        · exact .inr ⟨rfl, there⟩
      · rintro (old | ⟨same, here⟩)
        · exact .inl old
        · cases same
          exact .inr ⟨rfl, rfl, here⟩
    next absent =>
      constructor
      · exact .inl
      · rintro (old | ⟨same, here⟩)
        · exact old
        · cases same
          exact absurd here absent
  | _ => simp [Task.step]

theorem hasParent_step (g : Graph) (t : Task) (a b : String) : (t.step g).1.HasParent b a ↔
    g.HasParent b a ∨ (t = .backlink a b ∧ g.contains b = true) := by
  cases t with
  | link parent child =>
    simp only [Task.step]
    split <;> simp
  | backlink parent child =>
    simp only [Task.step, hasParent_addParent, Task.backlink.injEq]
    constructor
    · rintro (old | ⟨rfl, rfl, here⟩)
      · exact .inl old
      · exact .inr ⟨⟨rfl, rfl⟩, here⟩
    · rintro (old | ⟨⟨rfl, rfl⟩, here⟩)
      · exact .inl old
      · exact .inr ⟨rfl, rfl, here⟩
  | _ => simp [Task.step]

theorem failures_step (g : Graph) (t : Task) (text : String) :
    (t.step g).1.failures.contains text = true ↔ g.failures.contains text = true ∨
      ∃ parent child, t = .report parent child ∧ text = missingParent parent child := by
  cases t with
  | link parent child =>
    simp only [Task.step]
    split <;> simp [addChild]
  | report parent child => simp [Task.step, addFailure, or_comm, @eq_comm _ text]
  | _ => simp [Task.step, see, addParent]

/-- Each access takes its call on to what the next task says. -/
theorem Reached.step (reached : Reached g₀ g c t) (within : Within g₀ g) :
    Reached g₀ (t.step g).1 c (t.step g).2 := by
  cases reached with
  | see =>
    have here : (g.see c.sighting).contains c.id = true := by simp [Addition.id]
    simp only [Task.step, Task.afterSee]
    split
    next none => exact .done here fun parent child asks => by cases none.symm.trans asks.1
    next parent some =>
      split
      next self =>
        refine .done here fun p child asks => absurd ?_ asks.2.2
        rw [← Option.some.inj (some.symm.trans asks.1), ← asks.2.1, self]
      next other => exact .link ⟨some, rfl, other⟩ here
  | @link parent child asks here =>
    simp only [Task.step]
    split
    next there =>
      exact .backlink asks (by simpa using here) (hasChild_addChild.mpr (.inr ⟨rfl, rfl, there⟩))
    next absent =>
      exact .report asks here (Bool.eq_false_iff.mpr fun old => absent (within.contains _ old))
  | @backlink parent child asks here edge =>
    refine .done (by simpa [Task.step, asks.2.1] using here) fun p x other => .inl ?_
    obtain rfl : parent = p := Option.some.inj (asks.1.symm.trans other.1)
    obtain rfl : child = x := asks.2.1.symm.trans other.2.1
    exact ⟨hasChild_addParent.mpr edge, hasParent_addParent.mpr (.inr ⟨rfl, rfl, here⟩)⟩
  | @report parent child asks here absent =>
    refine .done (by simpa [Task.step, asks.2.1] using here) fun p x other => .inr ?_
    obtain rfl : parent = p := Option.some.inj (asks.1.symm.trans other.1)
    obtain rfl : child = x := asks.2.1.symm.trans other.2.1
    exact ⟨absent, by simp [Task.step, addFailure]⟩
  | done here settled => exact .done here settled

structure Progress (g₀ : Graph) (calls : List Addition) (s : Shared Graph Task) : Prop where
  length : s.tasks.length = calls.length
  within : Within g₀ s.state
  reached : ∀ (i : Nat) c t, calls[i]? = some c → s.tasks[i]? = some t → Reached g₀ s.state c t
  children : ∀ a b, s.state.HasChild a b → g₀.HasChild a b ∨ ∃ c ∈ calls, c.Asks a b
  parents : ∀ a b, s.state.HasParent b a → g₀.HasParent b a ∨ ∃ c ∈ calls, c.Asks a b
  failures : ∀ text, s.state.failures.contains text = true → g₀.failures.contains text = true ∨
    ∃ c ∈ calls, ∃ a b, c.Asks a b ∧ g₀.contains a = false ∧ text = missingParent a b

theorem start_progress (g : Graph) (calls : List Addition) :
    Progress g calls (calling g calls) where
  length := List.length_map ..
  within := .refl g
  reached i c t call task := by
    have same : Task.see c = t := by simpa [calling, call] using task
    exact same ▸ .see
  children _ _ := .inl
  parents _ _ := .inl
  failures _ := .inl

/-- The call whose task is at `i`. -/
theorem Progress.call {i : Nat} (progress : Progress g₀ calls s) (task : s.tasks[i]? = some t) :
    ∃ c, calls[i]? = some c ∧ c ∈ calls ∧ Reached g₀ s.state c t := by
  have bound : i < calls.length := progress.length ▸ (List.getElem?_eq_some_iff.mp task).1
  have call : calls[i]? = some calls[i] := List.getElem?_eq_getElem bound
  exact ⟨_, call, List.mem_of_getElem? call, progress.reached i _ t call task⟩

/-- Each access keeps the account of the calls. -/
theorem Progress.step {i : Nat} (progress : Progress g₀ calls s) (task : s.tasks[i]? = some t) :
    Progress g₀ calls ⟨(t.step s.state).1, s.tasks.set i (t.step s.state).2⟩ := by
  have bound := (List.getElem?_eq_some_iff.mp task).1
  obtain ⟨c, call, member, reached⟩ := progress.call task
  have grows := within_step s.state t
  constructor
  case length => simpa using progress.length
  case within => exact progress.within.trans grows
  case reached =>
    intro j d u other mine
    by_cases same : i = j
    · subst same
      obtain rfl : c = d := Option.some.inj (call.symm.trans other)
      obtain rfl : (t.step s.state).2 = u := by simpa [bound] using mine
      exact reached.step progress.within
    · -- The graph only grows, so the other calls keep what they have reached.
      have old : s.tasks[j]? = some u := by simpa [List.getElem?_set, same] using mine
      exact (progress.reached j d u other old).mono grows
  case children =>
    intro a b edge
    rcases (hasChild_step ..).mp edge with old | ⟨rfl, _⟩
    · exact progress.children a b old
    · cases reached with
      | link asks _ => exact .inr ⟨c, member, asks⟩
  case parents =>
    intro a b edge
    rcases (hasParent_step ..).mp edge with old | ⟨rfl, _⟩
    · exact progress.parents a b old
    · cases reached with
      | backlink asks _ _ => exact .inr ⟨c, member, asks⟩
  case failures =>
    intro text failed
    rcases (failures_step ..).mp failed with old | ⟨a, b, rfl, same⟩
    · exact progress.failures text old
    · cases reached with
      | report asks _ absent => exact .inr ⟨c, member, a, b, asks, absent, same⟩

theorem execute_progress (progress : Progress g₀ calls s) (schedule : List Nat) :
    Progress g₀ calls (s.execute Task.step schedule) :=
  Shared.execute_invariant (fun _ _ _ progress task => progress.step task) progress schedule

/-- An edge that stands at its upper end alone is about to be written at its lower end. -/
structure Invariant (s : Shared Graph Task) : Prop where
  child_of_parent : ∀ a b, s.state.HasParent b a → s.state.HasChild a b
  parent_of_child : ∀ a b, s.state.HasChild a b →
    s.state.HasParent b a ∨ ∃ i : Nat, s.tasks[i]? = some (.backlink a b)
  closed : ∀ a b, s.state.HasChild a b → s.state.contains a = true ∧ s.state.contains b = true
  irreflexive : ∀ a, ¬ s.state.HasChild a a

theorem start_invariant (consistent : Consistent g) (calls : List Addition) :
    Invariant (calling g calls) where
  child_of_parent a b := (consistent.child_iff_parent a b).mpr
  parent_of_child a b edge := .inl ((consistent.child_iff_parent a b).mp edge)
  closed := consistent.closed
  irreflexive := consistent.irreflexive

theorem Invariant.step {i : Nat} (valid : Invariant s) (progress : Progress g₀ calls s)
    (task : s.tasks[i]? = some t) :
    Invariant ⟨(t.step s.state).1, s.tasks.set i (t.step s.state).2⟩ := by
  have bound := (List.getElem?_eq_some_iff.mp task).1
  obtain ⟨c, _, _, reached⟩ := progress.call task
  have grows := within_step s.state t
  constructor
  case child_of_parent =>
    intro a b edge
    rcases (hasParent_step ..).mp edge with old | ⟨rfl, _⟩
    · exact grows.hasChild _ _ (valid.child_of_parent a b old)
    · cases reached with
      | backlink _ _ down => exact grows.hasChild _ _ down
  case parent_of_child =>
    intro a b edge
    rcases (hasChild_step ..).mp edge with old | ⟨rfl, here⟩
    · rcases valid.parent_of_child a b old with up | ⟨j, pending⟩
      · exact .inl (grows.hasParent _ _ up)
      · -- The call that owes the lower end may be the one that takes this step.
        by_cases same : i = j
        · subst same
          obtain rfl : t = .backlink a b := Option.some.inj (task.symm.trans pending)
          exact .inl ((hasParent_step ..).mpr (.inr ⟨rfl, (valid.closed a b old).2⟩))
        · exact .inr ⟨j, by simpa [List.getElem?_set, same] using pending⟩
    · exact .inr ⟨i, by simp [bound, Task.step, here]⟩
  case closed =>
    intro a b edge
    rcases (hasChild_step ..).mp edge with old | ⟨rfl, here⟩
    · exact (valid.closed a b old).imp (grows.contains a) (grows.contains b)
    · cases reached with
      | link _ child => exact ⟨grows.contains a here, grows.contains b child⟩
  case irreflexive =>
    intro a edge
    rcases (hasChild_step ..).mp edge with old | ⟨rfl, _⟩
    · exact valid.irreflexive a old
    · cases reached with
      | link asks _ => exact asks.2.2 rfl

theorem execute_both (progress : Progress g₀ calls s) (valid : Invariant s) (schedule : List Nat) :
    Progress g₀ calls (s.execute Task.step schedule) ∧
      Invariant (s.execute Task.step schedule) :=
  Shared.execute_invariant (P := fun s => Progress g₀ calls s ∧ Invariant s)
    (fun _ _ _ both task => ⟨both.1.step task, both.2.step both.1 task⟩) ⟨progress, valid⟩ schedule

/-- With no call in flight an edge stands at both of its ends. -/
theorem Invariant.consistent (valid : Invariant s) (quiet : quiet s.tasks = true) :
    Consistent s.state where
  child_iff_parent a b := by
    refine ⟨fun edge => ?_, valid.child_of_parent a b⟩
    rcases valid.parent_of_child a b edge with up | ⟨i, pending⟩
    · exact up
    · have active : s.tasks.any Task.inFlight = true :=
        List.any_eq_true.mpr ⟨_, List.mem_of_getElem? pending, rfl⟩
      simp [Graph.quiet, active] at quiet
  closed := valid.closed
  irreflexive := valid.irreflexive

theorem eq_done_of_finished {tasks : List Task} (last : finished tasks = true) :
    ∀ t ∈ tasks, t = .done :=
  fun t member => by simpa using List.all_eq_true.mp last t member

theorem quiet_of_finished {tasks : List Task} (last : finished tasks = true) :
    quiet tasks = true := by
  simp only [Graph.quiet, Bool.not_eq_true', List.any_eq_false]
  intro t member
  simp [eq_done_of_finished last t member, Task.inFlight]

/-- The most accesses that a call has still to make. -/
def Task.remaining : Task → Nat
  | .see _ => 3
  | .link .. => 2
  | .backlink .. | .report .. => 1
  | .done => 0

theorem remaining_step (g : Graph) (t : Task) : (t.step g).2.remaining ≤ t.remaining - 1 := by
  cases t with
  | see c =>
    simp only [Task.step, Task.afterSee]
    split
    · exact Nat.zero_le _
    · split
      · exact Nat.zero_le _
      · exact Nat.le_refl 2
  | link =>
    simp only [Task.step]
    split <;> exact Nat.le_refl 1
  | _ => exact Nat.zero_le _

theorem eq_done_of_remaining (none : t.remaining = 0) : t = .done := by
  cases t <;> simp_all [Task.remaining]

/-- Any number of calls on a new graph, in any interleaving of their accesses and at any point of
it. A call ends after three accesses. -/
theorem interleaved_edges (manualRoots : Bool) (rule : DevelopmentRule) (calls : List Addition)
    (schedule : List Nat) :
    let s := (calling { manualRoots, rule } calls).execute Task.step schedule
    (∀ a b, s.state.HasParent b a → s.state.HasChild a b) ∧
    (∀ a b, s.state.HasChild a b ∨ s.state.HasParent b a →
      s.state.contains a = true ∧ s.state.contains b = true) ∧
    (∀ a, ¬ s.state.HasChild a a ∧ ¬ s.state.HasParent a a) ∧
    (quiet s.tasks = true → ∀ a b, s.state.HasChild a b ↔ s.state.HasParent b a) ∧
    (∀ (i : Nat) c parent, calls[i]? = some c → s.tasks[i]? = some .done →
      c.parent = some parent → parent ≠ c.id →
      (s.state.HasChild parent c.id ∧ s.state.HasParent c.id parent) ∨
        s.state.failures.contains (missingParent parent c.id) = true) ∧
    (∀ a b, s.state.HasChild a b ∨ s.state.HasParent b a →
      ∃ c ∈ calls, c.parent = some a ∧ c.id = b) ∧
    ∀ i < calls.length, 3 ≤ schedule.count i → s.tasks[i]? = some .done := by
  intro s
  have began := start_progress { manualRoots, rule } calls
  have empty := start_invariant (consistent_empty manualRoots rule) calls
  have both := execute_both began empty schedule
  have progress : Progress _ calls s := both.1
  have valid : Invariant s := both.2
  have down (a b : String) (edge : s.state.HasChild a b ∨ s.state.HasParent b a) :
      s.state.HasChild a b := edge.elim id (valid.child_of_parent a b)
  refine ⟨valid.child_of_parent, fun a b edge => valid.closed a b (down a b edge), fun a => ?_,
    fun quiet => (valid.consistent quiet).child_iff_parent, ?_, fun a b edge => ?_, ?_⟩
  · exact ⟨valid.irreflexive a, fun edge => valid.irreflexive a (down a a (.inr edge))⟩
  · intro i c parent call done asks other
    cases progress.reached i c .done call done with
    | done _ settled => exact (settled parent c.id ⟨asks, rfl, other⟩).imp id (·.2)
  · rcases progress.children a b (down a b edge) with old | ⟨c, member, asks⟩
    · simp [HasChild, node?] at old
    · exact ⟨c, member, asks.1, asks.2.1⟩
  · intro i bound enough
    have task : (calling { manualRoots, rule } calls).tasks[i]? = some (.see calls[i]) := by
      simp [calling, bound]
    obtain ⟨u, found, le⟩ := Shared.execute_count remaining_step schedule task
    have none : u.remaining = 0 := by
      rw [Task.remaining, Nat.sub_eq_zero_of_le enough] at le
      exact Nat.le_zero.mp le
    exact eq_done_of_remaining none ▸ found

/-- A call that nothing comes between adds its component as a call alone does. -/
theorem iterate_step_see (g : Graph) (c : Addition) :
    (fun p => Task.step p.1 p.2)^[3] (g, .see c) = (g.add c.sighting c.parent, .done) := by
  simp only [Function.iterate_succ_apply, Function.iterate_zero_apply]
  cases parent : c.parent with
  | none => simp only [Task.step, Task.afterSee, parent, add]
  | some p =>
    by_cases self : p = c.sighting.id
    · simp [Task.step, Task.afterSee, parent, self, add, link, Addition.id]
    · by_cases there : (g.see c.sighting).contains p = true <;>
        simp [Task.step, Task.afterSee, parent, self, add, link, there, Addition.id]

end Inventory.Graph
