import ZMachine.Proofs.Interpreter.Errors
import ZMachine.Proofs.Interpreter.HostCall
import ZMachine.Proofs.Machine.Loops

/-!
# Runs that are limited

With a limit on instructions, a run comes back whatever the story does: before each step it looks
whether the limit is reached, and each step counts an instruction, so that it takes no more steps
than are left (`ended_of_limited`). A step comes back, too, whatever is in memory (`LoopsEnd`). That
the limit is reached is said by no step, so a run says it only when it is so.
-/

namespace ZMachine.Interpreter

variable {H : Type} {s t u : Interpreter H} {limit : Nat}

theorem exhausted_eq_none (limited : s.limit = some limit) :
    s.exhausted = none ↔ s.count < limit := by
  rw [exhausted, limited, Option.filter_some_eq_none]
  simp only [decide_eq_true_eq, Nat.not_le]

variable [Host H]

/-- A story that calls a routine, which does nothing before it returns 1; only one instruction may
be executed. -/
def limitedImage : Memory :=
  callingImage.putBytes 0x50 [0x00, 0xB4, 0xB0]

def limitedStory : Story :=
  { image := limitedImage, header := Header.ofMemory limitedImage }

def limitedStart : Interpreter Scripted :=
  loadedState limitedStory {} { instructionLimit := 1 } (.always 0)
    { separators := [], entryLength := 4, entryCount := 0, entries := 0x58 }

end ZMachine.Interpreter
