import ZMachine.Checked

/-!
# IFF files

An IFF file is a form: the letters `FORM`, a length, a type of four bytes, and chunks. A chunk has
an identifier of four bytes, a length and its data; data of odd length is followed by a pad byte
that the length does not count. Bytes behind the stated length of the form are ignored.
-/

namespace ZMachine

structure Chunk where
  id : List UInt8
  data : List UInt8
  deriving DecidableEq, Repr

structure Container where
  formType : List UInt8
  chunks : List Chunk
  deriving DecidableEq, Repr

namespace Container

/-- The four bytes with which every form begins: `FORM`. -/
def magic : List UInt8 := [0x46, 0x4F, 0x52, 0x4D]

def chunkBytes (chunk : Chunk) : List UInt8 :=
  chunk.id ++ Word.longBytes chunk.data.length ++ chunk.data ++
    List.replicate (chunk.data.length % 2) 0

def toBytes (c : Container) : List UInt8 :=
  let body := c.formType ++ c.chunks.flatMap chunkBytes
  magic ++ Word.longBytes body.length ++ body

/-- The chunks from an offset up to before another. -/
def readChunksAt (bytes : Memory) (stop offset : Nat) : Except MachineError (List Chunk) :=
  if offset < stop then
    if stop < offset + 8 then .error (.badSnapshot (.truncated .chunkHeader))
    else do
      let id ← bytes.bytesIn offset (offset + 4)
      let length ← bytes.longIn (offset + 4)
      let start := offset + 8
      if stop < start + length then throw (.badSnapshot (.truncated .chunkData))
      else
        let data ← bytes.bytesIn start (start + length)
        let chunks ← readChunksAt bytes stop (start + length + length % 2)
        pure ({ id, data } :: chunks)
  else .ok []
termination_by stop - offset

def ofBytes (bytes : List UInt8) : Except MachineError Container :=
  let bytes : Memory := bytes.toArray
  if bytes.size < 12 then .error (.badSnapshot (.truncated .header))
  else do
    let first ← bytes.bytesIn 0 4
    if first ≠ magic then throw (.badSnapshot .notContainer)
    else
      let length ← bytes.longIn 4
      let stop := 8 + length
      if bytes.size < stop ∨ length < 4 then throw (.badSnapshot (.truncated .body))
      else
        let formType ← bytes.bytesIn 8 12
        let chunks ← readChunksAt bytes stop 12
        pure { formType, chunks }

/-- The data of the first chunk with that identifier. -/
def find? (c : Container) (id : List UInt8) : Option (List UInt8) :=
  (c.chunks.find? fun chunk => chunk.id = id).map (·.data)

end Container

end ZMachine
