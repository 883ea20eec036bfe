import ZMachine.ZString.Encoding

/-!
# The dictionary

The dictionary lists its word separators and then entries of one length, each beginning with the
four-byte key of its word. Entries are in ascending order of their keys, so a word is found by
halving.
-/

namespace ZMachine

structure Dictionary where
  /-- ZSCII codes that end a word and are words themselves. -/
  separators : List UInt8
  entryLength : Nat
  entryCount : Nat
  entries : Nat
  deriving DecidableEq, Repr

namespace Dictionary

def keySize : Nat := 4

def read (memory : Memory) (address : Nat) : Except MachineError Dictionary :=
  match memory[address]? with
  | none => .error (.badStory (.dictionaryAddress address))
  | some separatorCount => do
    let lengthAddress := address + 1 + separatorCount.toNat
    let entries := lengthAddress + 3
    if memory.size < entries then throw (.badStory .dictionaryHeader)
    else
      let separators ← memory.bytesIn (address + 1) lengthAddress
      let length ← memory.byteIn lengthAddress
      let count ← memory.wordIn (lengthAddress + 1)
      let entryLength := length.toNat
      let entryCount := count.toNat
      if entryLength < keySize then throw (.badStory (.entryLength entryLength))
      else if memory.size < entries + entryLength * entryCount then
        throw (.badStory (.entriesPastEnd entryCount))
      else pure { separators, entryLength, entryCount, entries }

/-- The key of a word, cut off its packed Z-characters. -/
def packKey (word : List Char) : Except MachineError (List UInt8) := do
  let words ← ZString.packTriples (ZString.filled (ZString.keyZChars word))
  stretch (words.flatMap Word.bytes) 0 keySize

/-- Bytes as one number, most significant first; keys are in the order of these numbers. -/
def rank (key : List UInt8) : Nat :=
  key.foldl (fun n b => n * 256 + b.toNat) 0

def entryAddress (d : Dictionary) (index : Nat) : Nat :=
  d.entries + index * d.entryLength

/-- The rank of the key at an address. -/
def rankAt (memory : Memory) (address : Nat) : Except MachineError Nat := do
  let key ← memory.bytesIn address (address + keySize)
  pure (rank key)

/-- Looks for a key of the given rank among the entries from `low` up to before `high`. -/
def search (d : Dictionary) (memory : Memory) (key : Nat) (low high : Nat) :
    Except MachineError (Option Nat) :=
  if low < high then
    let middle := (low + high) / 2
    match rankAt memory (d.entryAddress middle) with
    | .error e => .error e
    | .ok found =>
      if key < found then search d memory key low middle
      else if found < key then search d memory key (middle + 1) high
      else .ok (some (d.entryAddress middle))
  else .ok none
termination_by high - low

/-- The address of the entry for a word, or 0. -/
def lookup (d : Dictionary) (memory : Memory) (word : List Char) :
    Except MachineError UInt16 := do
  let key ← packKey word
  match ← d.search memory (rank key) 0 d.entryCount with
  | none => pure 0
  | some address => pure (.ofNat address)

end Dictionary

end ZMachine
