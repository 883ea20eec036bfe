import ZMachine.Dictionary.Basic

/-!
# Words of an input line

A space ends a word; a separator of the dictionary ends a word and is a word itself.
-/

namespace ZMachine

structure Token where
  text : List Char
  /-- Where it begins in the text buffer, whose first character is at 1. -/
  position : Nat
  /-- Its dictionary entry, or 0. -/
  entry : UInt16
  deriving DecidableEq, Repr

namespace Dictionary

def space : UInt8 := 32

/-- Where the word lies that begins at `first`, if there is one, and ends before `i`. -/
def pendingRange (first : Option Nat) (i : Nat) : List (Nat × Nat) :=
  match first with
  | some first => [(first, i)]
  | none => []

/-- Where the words of a line lie, each from one place up to before another; the line goes on at
place `i`, and `first` is where the unfinished word before it begins. -/
def rangesFrom (separators : List UInt8) (i : Nat) (first : Option Nat) :
    List UInt8 → List (Nat × Nat)
  | [] => pendingRange first i
  | b :: rest =>
    if b = space then pendingRange first i ++ rangesFrom separators (i + 1) none rest
    else if b ∈ separators then
      pendingRange first i ++ (i, i + 1) :: rangesFrom separators (i + 1) none rest
    else rangesFrom separators (i + 1) (first.getD i) rest

/-- The word of a line that lies from one place up to before another. -/
def tokenIn (d : Dictionary) (memory : Memory) (line : List UInt8) (range : Nat × Nat) :
    Except MachineError Token := do
  let codes ← stretch line range.1 range.2
  let text ← Zscii.characters codes
  let entry ← d.lookup memory text
  pure { text, position := range.1 + 1, entry }

def tokensIn (d : Dictionary) (memory : Memory) (line : List UInt8) :
    List (Nat × Nat) → Except MachineError (List Token)
  | [] => pure []
  | range :: rest => do
    let token ← d.tokenIn memory line range
    let tokens ← d.tokensIn memory line rest
    pure (token :: tokens)

/-- The words of a line in ZSCII, each with its dictionary entry. -/
def tokenize (d : Dictionary) (memory : Memory) (line : List UInt8) :
    Except MachineError (List Token) :=
  d.tokensIn memory line (rangesFrom d.separators 0 none line)

end Dictionary

end ZMachine
