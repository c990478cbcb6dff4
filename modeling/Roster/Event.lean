import Roster.Broadcast.Ring
import Roster.Workflow.Model

/-!
# Events

The scheduler sends one event for every change of a job's state, and the broadcast ring carries it
to the dashboards as four words.
-/

namespace Roster

/-- What the ring carries for a job that changed state. -/
structure JobEvent where
  runSeq : UInt64
  jobSeq : UInt64
  stateCode : UInt64
  emittedAt : UInt64
  deriving DecidableEq, Repr

instance : WordSafe JobEvent where
  words := 4
  toWords event := [event.runSeq, event.jobSeq, event.stateCode, event.emittedAt]
  ofWords words := ⟨words.getD 0 0, words.getD 1 0, words.getD 2 0, words.getD 3 0⟩
  length_toWords _ := rfl
  ofWords_toWords _ := rfl

/-- `JobEvent::new`. -/
def JobEvent.new (runSeq jobSeq : ℕ) (newState : JobState) (emittedAt : ℕ) : JobEvent :=
  ⟨.ofNat runSeq, .ofNat jobSeq, .ofNat newState.toCode, .ofNat emittedAt⟩

/-- `JobEvent::state`. -/
def JobEvent.state (event : JobEvent) : Option JobState := JobState.fromCode event.stateCode.toNat

/-- An event decodes to the state it was made with. -/
theorem JobEvent.state_new (runSeq jobSeq : ℕ) (newState : JobState) (emittedAt : ℕ) :
    (JobEvent.new runSeq jobSeq newState emittedAt).state = some newState := by
  cases newState <;> rfl

end Roster
