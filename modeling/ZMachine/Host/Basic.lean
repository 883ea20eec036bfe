import ZMachine.Numeral

/-!
# Hosts

Everything that a story can notice of the world around it goes through a host: output and input,
saved games, the status line, and the windows. A host is a state; each of its operations gives the
next one.
-/

namespace ZMachine

/-- What the two numbers of a status line mean. -/
inductive Status where
  | score (score : Int) (turns : Nat)
  | time (hours minutes : Nat)
  deriving DecidableEq, Repr

namespace Status

/-- An hour of the day on a clock of twelve hours. -/
def clockHour (hours : Nat) : Nat × String :=
  let h := hours % 24
  if h = 0 then (12, "AM")
  else if h < 12 then (h, "AM")
  else if h = 12 then (12, "PM")
  else (h - 12, "PM")

def describe : Status → String
  | score s turns =>
    "Score: " ++ Numeral.integer s ++ "  Moves: " ++ Numeral.decimal 1 turns
  | time hours minutes =>
    let (hour, half) := clockHour hours
    "Time: " ++ Numeral.decimal 1 hour ++ ":" ++ Numeral.decimal 2 minutes ++ " " ++ half

end Status

class Host (H : Type) where
  /-- Shows text; the flag says whether it goes to the transcript too. -/
  print : H → String → Bool → H
  /-- The next line of input, cut to a number of characters, or nothing if there is none yet. -/
  read : H → Nat → Option String × H
  /-- Keeps a saved game and says whether that worked. -/
  save : H → List UInt8 → Bool × H
  restore : H → Option (List UInt8) × H
  /-- Memory has been filled from the story image. -/
  restarted : H → H
  updateStatus : H → String → Status → H
  /-- Selects the lower window by 0, the upper one by 1. -/
  selectWindow : H → UInt16 → H
  /-- Splits off an upper window of that many lines. -/
  splitWindow : H → UInt16 → H
  supportsSplit : H → Bool
  setFixedPitch : H → Bool → H

end ZMachine
