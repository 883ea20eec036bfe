import ZMachine.Checked
import ZMachine.Text.Utf8

/-!
# The story header

The first 64 bytes of a story say where its tables are. `Header.read` takes them once from the
pristine image; only the two flag fields change afterwards, and those are looked up in memory.
`Header.ofMemory` says which fields it finds (`Header.read_eq`).
-/

namespace ZMachine

structure Header where
  version : UInt8
  flags1 : UInt8
  release : UInt16
  highMemory : UInt16
  initialPc : UInt16
  dictionary : UInt16
  objectTable : UInt16
  globals : UInt16
  staticBase : UInt16
  flags2 : UInt16
  /-- Six bytes, normally the digits of a date. -/
  serial : List UInt8
  abbreviations : UInt16
  fileWords : UInt16
  checksum : UInt16
  deriving DecidableEq, Repr

namespace Header

def length : Nat := 64

/-- Flags 1 has the bits on the status line and on splitting the screen. -/
def flags1Address : Nat := 0x01

/-- Flags 2 has the bits on transcript and fixed pitch. -/
def flags2Address : Nat := 0x10

def interpreterNumberAddress : Nat := 0x1E

def interpreterVersionAddress : Nat := 0x1F

def standardRevisionAddress : Nat := 0x32

def ofMemory (memory : Memory) : Header where
  version := memory.byte 0x00
  flags1 := memory.byte flags1Address
  release := memory.word 0x02
  highMemory := memory.word 0x04
  initialPc := memory.word 0x06
  dictionary := memory.word 0x08
  objectTable := memory.word 0x0A
  globals := memory.word 0x0C
  staticBase := memory.word 0x0E
  flags2 := memory.word flags2Address
  serial := memory.bytes 0x12 6
  abbreviations := memory.word 0x18
  fileWords := memory.word 0x1A
  checksum := memory.word 0x1C

/-- The header in the bytes that an image begins with. -/
def ofBytes (raw : Memory) : Except MachineError Header := do
  let version ← raw.byteIn 0x00
  let flags1 ← raw.byteIn flags1Address
  let release ← raw.wordIn 0x02
  let highMemory ← raw.wordIn 0x04
  let initialPc ← raw.wordIn 0x06
  let dictionary ← raw.wordIn 0x08
  let objectTable ← raw.wordIn 0x0A
  let globals ← raw.wordIn 0x0C
  let staticBase ← raw.wordIn 0x0E
  let flags2 ← raw.wordIn flags2Address
  let serial ← raw.bytesIn 0x12 0x18
  let abbreviations ← raw.wordIn 0x18
  let fileWords ← raw.wordIn 0x1A
  let checksum ← raw.wordIn 0x1C
  pure
    { version, flags1, release, highMemory, initialPc, dictionary, objectTable, globals, staticBase
      flags2, serial, abbreviations, fileWords, checksum }

/-- The header of an image that has room for one and whose static memory begins inside. -/
def read (image : Memory) : Except MachineError Header :=
  if image.size < length then .error (.badStory (.smallerThanHeader image.size length))
  else do
    let raw ← image.bytesIn 0 length
    let header ← ofBytes raw.toArray
    let base := header.staticBase.toNat
    if image.size < base ∨ base < length then throw (.badStory (.staticBase base image.size))
    else pure header

theorem ofBytes_eq {raw : Memory} (whole : length ≤ raw.size) :
    ofBytes raw = .ok (ofMemory raw) := by
  rw [length] at whole
  have flags1 : flags1Address < raw.size := Nat.lt_of_lt_of_le (by decide) whole
  have flags2 : flags2Address + 1 < raw.size := Nat.lt_of_lt_of_le (by decide) whole
  simp (disch := omega) only [ofBytes, Memory.byteIn_of_lt, Memory.wordIn_of_lt,
    Memory.bytesIn_of_le, bind, Except.bind]
  rfl

/-- The fields are found in the first bytes alone. -/
theorem ofMemory_congr {raw image : Memory} (same : ∀ i < length, raw.byte i = image.byte i) :
    ofMemory raw = ofMemory image := by
  have serial : raw.bytes 0x12 6 = image.bytes 0x12 6 := by
    refine List.map_congr_left fun i member => same _ ?_
    have := List.mem_range.mp member
    simp only [length]
    omega
  simp (disch := decide) only [ofMemory, Memory.word, same, serial]

theorem read_eq (image : Memory) :
    read image =
      if image.size < length then .error (.badStory (.smallerThanHeader image.size length))
      else
        let header := ofMemory image
        let base := header.staticBase.toNat
        if image.size < base ∨ base < length then .error (.badStory (.staticBase base image.size))
        else .ok header := by
  rw [read]
  split
  · rfl
  · next whole =>
    have size : length ≤ (image.bytes 0 length).toArray.size := by simp
    have same (i : Nat) (inside : i < length) :
        Memory.byte (image.bytes 0 length).toArray i = image.byte i := by
      rw [Memory.byte_toArray_bytes inside, Nat.zero_add]
    rw [except_bind_of_ok (Memory.bytesIn_of_le (Nat.zero_le _) (Nat.le_of_not_lt whole)),
      Nat.sub_zero, except_bind_of_ok (ofBytes_eq size), ofMemory_congr same]
    rfl

def fileLength (header : Header) : Nat :=
  header.fileWords.toNat * 2

def serialText (header : Header) : String :=
  Text.ofLatin1 header.serial

/-- The status line shows a clock rather than score and turns. -/
def showsTime (flags1 : UInt8) : Bool :=
  flags1.toNat / 2 % 2 == 1

/-- The fields as a table, one to a line. -/
def listing (header : Header) : String :=
  "\nZ-code version:           " ++ Numeral.decimal 1 header.version.toNat ++
  "\nInterpreter flags:        " ++ Numeral.address 2 header.flags1.toNat ++
  "\nRelease number:           " ++ Numeral.decimal 1 header.release.toNat ++
  "\nSize of resident memory:  " ++ Numeral.address 4 header.highMemory.toNat ++
  "\nStart PC:                 " ++ Numeral.address 4 header.initialPc.toNat ++
  "\nDictionary address:       " ++ Numeral.address 4 header.dictionary.toNat ++
  "\nObject table address:     " ++ Numeral.address 4 header.objectTable.toNat ++
  "\nGlobal variables address: " ++ Numeral.address 4 header.globals.toNat ++
  "\nSize of dynamic memory:   " ++ Numeral.address 4 header.staticBase.toNat ++
  "\nGame flags:               " ++ Numeral.address 4 header.flags2.toNat ++
  "\nSerial number:            " ++ header.serialText ++
  "\nAbbreviations address:    " ++ Numeral.address 4 header.abbreviations.toNat ++
  "\nFile size:                " ++ Numeral.address 4 header.fileLength ++
  "\nChecksum:                 " ++ Numeral.address 4 header.checksum.toNat ++ "\n"

end Header

/-- A loaded story: its pristine image and the header read from it. -/
structure Story where
  image : Memory
  header : Header

namespace Story

def load (image : Memory) : Except MachineError Story := do
  let header ← Header.read image
  pure { image, header }

/-- Bytes that the story may write: all below the static memory. -/
def dynamicSize (story : Story) : Nat :=
  story.header.staticBase.toNat

/-- The sum of the pristine bytes behind the header, up to the file length that it states. -/
def checksum (story : Story) : UInt16 :=
  (story.image.extract Header.length story.header.fileLength).foldl
    (fun sum b => sum + .ofNat b.toNat) 0

end Story

end ZMachine
