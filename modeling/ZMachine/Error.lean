import ZMachine.Numeral
import ZMachine.Opcode
import ZMachine.Text.Quoted

/-!
# What can go wrong

Conditions that a story can observe (a failed `verify`, a word missing from the dictionary, a
refused restore) are no errors; they come back through the store or the branch of the instruction.
Errors stop the machine. Each constructor is a cause; the wording is in `MachineError.message`.
-/

namespace ZMachine

/-- The parts of an instruction that may lie beyond the end of memory. -/
inductive InstructionPart where
  | address
  | extendedOpcode
  | operandTypes
  | largeConstant
  | operand
  | storeVariable
  | branchOffset
  deriving DecidableEq, Repr

def InstructionPart.name : InstructionPart → String
  | address => "instruction address"
  | extendedOpcode => "extended opcode"
  | operandTypes => "operand types"
  | largeConstant => "large constant"
  | operand => "operand"
  | storeVariable => "store variable"
  | branchOffset => "branch offset"

/-- Why the bytes at an address do not make sense as what they are used for. -/
inductive DecodeFault where
  | truncated (part : InstructionPart)
  | nestedAbbreviation
  | abbreviationOutside (number : Nat)
  | notGlobal (variableNumber : Nat)
  | tooManyLocals (routine locals limit : Nat)
  | topLevelReturn
  | missingOperand (opcode : Opcode) (index : Nat)
  | streamWithoutTable
  | streamTooDeep (limit : Nat)
  | inputDuringHostCall
  deriving DecidableEq, Repr

def DecodeFault.message : DecodeFault → String
  | truncated part => part.name ++ " out of bounds"
  | nestedAbbreviation => "abbreviation text references another abbreviation"
  | abbreviationOutside number => "abbreviation " ++ Numeral.decimal 1 number ++ " outside memory"
  | notGlobal number => "invalid global variable number " ++ Numeral.hex 2 number
  | tooManyLocals routine locals limit =>
    "routine at " ++ Numeral.hex 5 routine ++ " declares " ++ Numeral.decimal 1 locals ++
      " locals (max " ++ Numeral.decimal 1 limit ++ ")"
  | topLevelReturn => "return from the top level"
  | missingOperand opcode index =>
    opcode.name ++ " expects at least " ++ Numeral.decimal 1 (index + 1) ++ " operand(s)"
  | streamWithoutTable => "output_stream 3 without a table"
  | streamTooDeep limit =>
    "output stream 3 nested more than " ++ Numeral.decimal 1 limit ++ " deep"
  | inputDuringHostCall => "routine called by the host asked for input"

/-- Why a file is no story. -/
inductive StoryFault where
  | smallerThanHeader (size header : Nat)
  | staticBase (base size : Nat)
  | dictionaryAddress (address : Nat)
  | dictionaryHeader
  | entryLength (length : Nat)
  | entriesPastEnd (count : Nat)
  deriving DecidableEq, Repr

def StoryFault.message : StoryFault → String
  | smallerThanHeader size header =>
    "file is " ++ Numeral.decimal 1 size ++ " bytes, smaller than the " ++
      Numeral.decimal 1 header ++ " byte header"
  | staticBase base size =>
    "static memory base " ++ Numeral.address 4 base ++ " outside story of " ++
      Numeral.decimal 1 size ++ " bytes"
  | dictionaryAddress address =>
    "dictionary address " ++ Numeral.address 4 address ++ " outside story"
  | dictionaryHeader => "dictionary header truncated"
  | entryLength length =>
    "dictionary entry length " ++ Numeral.decimal 1 length ++ " shorter than an encoded word"
  | entriesPastEnd count =>
    "dictionary of " ++ Numeral.decimal 1 count ++ " entries runs past end of story"

/-- The parts of an IFF file that may be cut short. -/
inductive ContainerPart where
  | header
  | body
  | chunkHeader
  | chunkData
  deriving DecidableEq, Repr

def ContainerPart.name : ContainerPart → String
  | header => "IFF header"
  | body => "FORM body"
  | chunkHeader => "chunk header"
  | chunkData => "chunk data"

/-- Why bytes are no saved game of the loaded story. -/
inductive SnapshotFault where
  | truncated (part : ContainerPart)
  | notContainer
  | formType (found : String)
  | missingChunk (id : String)
  | headTooSmall
  | resumePoint (tag : Nat)
  | version (found expected : Nat)
  | otherStory (savedRelease : Nat) (savedSerial : String) (release : Nat) (serial : String)
  | pcOutside (pc : Nat)
  | incompleteRun
  | runTooLong
  | tooMuchMemory
  | framesTruncated
  | noFrame
  | frameLocals (count : Nat)
  | frameStack (count : Nat)
  | trailingFrameBytes
  | topLevelLocals
  | noSaveInstruction (pc : Nat) (found : Opcode)
  | returnsFromTopLevel (pc : Nat)
  deriving DecidableEq, Repr

def SnapshotFault.message : SnapshotFault → String
  | truncated part => "truncated " ++ part.name
  | notContainer => "not an IFF file (missing FORM header)"
  | formType found => "unexpected form type " ++ Text.quoted found
  | missingChunk id => "missing " ++ id ++ " chunk"
  | headTooSmall => "HEAD chunk too small"
  | resumePoint tag => "unknown resume point " ++ Numeral.decimal 1 tag
  | version found expected =>
    "save format version " ++ Numeral.decimal 1 found ++ " (expected " ++
      Numeral.decimal 1 expected ++ ")"
  | otherStory savedRelease savedSerial release serial =>
    "save is for release " ++ Numeral.decimal 1 savedRelease ++ " serial " ++ savedSerial ++
      ", loaded story is release " ++ Numeral.decimal 1 release ++ " serial " ++ serial
  | pcOutside pc => "pc " ++ Numeral.address 1 pc ++ " outside story"
  | incompleteRun => "incomplete RLE sequence"
  | runTooLong => "RLE run extends beyond memory"
  | tooMuchMemory => "compressed data extends beyond memory"
  | framesTruncated => "truncated Stks chunk"
  | noFrame => "no top-level frame"
  | frameLocals count => "frame with " ++ Numeral.decimal 1 count ++ " locals"
  | frameStack count => "frame stack of " ++ Numeral.decimal 1 count ++ " values"
  | trailingFrameBytes => "trailing bytes in Stks chunk"
  | topLevelLocals => "top-level frame has locals"
  | noSaveInstruction pc found =>
    "no save instruction at pc " ++ Numeral.address 1 pc ++ " (found " ++ found.name ++ ")"
  | returnsFromTopLevel pc =>
    "save at pc " ++ Numeral.address 1 pc ++ " returns from the top level"

/-- What stops the machine. `fault` is an access out of bounds, or a number too large for its field;
the machine's own invariants rule both out. `countFull` says that no further instruction can be
counted. -/
inductive MachineError where
  | unknownOpcode (opcode : UInt8) (count : OperandCount) (pc : Nat)
  | extendedOpcode (opcode : UInt8) (pc : Nat)
  | undecodable (pc : Nat) (why : DecodeFault)
  | stackUnderflow (pc : Nat)
  | stackOverflow (pc : Nat)
  | divisionByZero (pc : Nat)
  | invalidObject (object : UInt16)
  | invalidProperty (object property : UInt16)
  | writeOutside (address : Nat)
  | readOutside (address : Nat)
  | unsupportedVersion (version : UInt8)
  | badStory (why : StoryFault)
  | badSnapshot (why : SnapshotFault)
  | instructionLimit (limit : Nat)
  | countFull
  | fault
  deriving DecidableEq, Repr

def MachineError.message : MachineError → String
  | unknownOpcode opcode count pc =>
    "Unknown " ++ count.label ++ " opcode " ++ Numeral.address 2 opcode.toNat ++ " at PC " ++
      Numeral.programCounter pc
  | extendedOpcode opcode pc =>
    "Unknown EXT opcode " ++ Numeral.address 2 opcode.toNat ++ " at PC " ++
      Numeral.programCounter pc
  | undecodable pc why =>
    "Failed to decode instruction at " ++ Numeral.programCounter pc ++ ": " ++ why.message
  | stackUnderflow pc => "Stack underflow at PC " ++ Numeral.programCounter pc
  | stackOverflow pc => "Stack overflow at PC " ++ Numeral.programCounter pc
  | divisionByZero pc => "Division by zero at PC " ++ Numeral.programCounter pc
  | invalidObject object => "Invalid object number: " ++ Numeral.decimal 1 object.toNat
  | invalidProperty object property =>
    "Invalid property " ++ Numeral.decimal 1 property.toNat ++ " for object " ++
      Numeral.decimal 1 object.toNat
  | writeOutside address => "Illegal write to memory address " ++ Numeral.address 5 address
  | readOutside address => "Out of bounds read of memory address " ++ Numeral.address 5 address
  | unsupportedVersion version =>
    "Unsupported story file version " ++ Numeral.decimal 1 version.toNat
  | badStory why => "Malformed story file: " ++ why.message
  | badSnapshot why => "Save state error: " ++ why.message
  | instructionLimit limit => "Instruction limit of " ++ Numeral.decimal 1 limit ++ " reached"
  | countFull => "Instruction count full"
  | fault => "Internal fault"

end ZMachine
