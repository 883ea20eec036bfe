import ZMachine.Proofs.Snapshot.Container

/-!
# Heads read back

A head with a serial number of six bytes and a program counter of 32 bits is read back from its
bytes, whatever follows them.
-/

namespace ZMachine

theorem ResumePoint.ofTag_tag (resume : ResumePoint) :
    ∃ text parse, resume.words = [text, parse] ∧ ofTag resume.tag text parse = .ok resume := by
  cases resume with
  | atPc => exact ⟨0, 0, rfl, rfl⟩
  | saveInstruction => exact ⟨0, 0, rfl, rfl⟩
  | awaitingInput text parse => exact ⟨text, parse, rfl, rfl⟩

namespace SnapshotHead

/-- The serial number has six bytes, and the program counter fits in its field. -/
structure Sized (head : SnapshotHead) : Prop where
  serial : head.serial.length = 6
  pc : head.pc < Container.lengthLimit

theorem exists_six {l : List UInt8} (h : l.length = 6) :
    ∃ a b c d e f, l = [a, b, c, d, e, f] := by
  match l, h with
  | [a, b, c, d, e, f], _ => exact ⟨a, b, c, d, e, f, rfl⟩

theorem ofBytes_toBytes_append {head : SnapshotHead} (h : head.Sized) (rest : List UInt8) :
    ofBytes (head.toBytes ++ rest) = .ok head := by
  obtain ⟨version, release, serial, checksum, pc, resume⟩ := head
  obtain ⟨s₁, s₂, s₃, s₄, s₅, s₆, rfl⟩ := exists_six h.serial
  obtain ⟨text, parse, words, back⟩ := resume.ofTag_tag
  have pc_eq := Container.long_of_longBytes h.pc
  simp only [toBytes, Word.bytes, Word.longBytes, words, List.flatMap_cons, List.flatMap_nil,
    List.cons_append, List.nil_append]
  rw [ofBytes_eq]
  simp only [Word.ofBytes_high_low, back, pc_eq]
  rfl

theorem length_toBytes {head : SnapshotHead} (h : head.Sized) : head.toBytes.length = 20 := by
  obtain ⟨text, parse, words, -⟩ := head.resume.ofTag_tag
  simp only [toBytes, Word.bytes, Word.longBytes, words, List.flatMap_cons, List.flatMap_nil,
    List.cons_append, List.nil_append, List.length_cons, List.length_append, List.length_nil,
    h.serial]

end SnapshotHead

end ZMachine
