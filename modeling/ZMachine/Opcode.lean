/-!
# Opcodes of version 3

An opcode is found by its operand count class and its number within the class. The tables say
which opcodes store a result, branch, carry text, or name a variable by their first operand.
-/

namespace ZMachine

/-- The class that an opcode byte puts an instruction in. -/
inductive OperandCount where
  | op0
  | op1
  | op2
  | var
  deriving DecidableEq, Repr, Inhabited

def OperandCount.label : OperandCount → String
  | op0 => "0OP"
  | op1 => "1OP"
  | op2 => "2OP"
  | var => "VAR"

inductive Opcode where
  -- comparison and arithmetic
  | je | jl | jg | jz | test | or | and | not | add | sub | mul | div | mod | random
  -- the object tree
  | jin | testAttr | setAttr | clearAttr | insertObj | removeObj | getProp | getPropAddr
  | getNextProp | getPropLen | putProp | getSibling | getChild | getParent | printObj
  -- variables, tables and the stack
  | store | load | loadw | loadb | storew | storeb | inc | dec | incChk | decChk
  | push | pull | pop
  -- text, windows and input
  | print | printRet | printAddr | printPaddr | printChar | printNum | newLine | showStatus
  | sread | splitWindow | setWindow | outputStream | inputStream | soundEffect
  -- routines and the whole machine
  | call | ret | rtrue | rfalse | retPopped | jump | nop | save | restore | restart | quit
  | verify | piracy
  deriving DecidableEq, Repr, Inhabited

/-- The opcodes of a class, each at its number. -/
def OperandCount.opcodes : OperandCount → List (Option Opcode)
  | op2 => [none, some .je, some .jl, some .jg, some .decChk, some .incChk, some .jin,
      some .test, some .or, some .and, some .testAttr, some .setAttr, some .clearAttr,
      some .store, some .insertObj, some .loadw, some .loadb, some .getProp,
      some .getPropAddr, some .getNextProp, some .add, some .sub, some .mul, some .div,
      some .mod]
  | op1 => [some .jz, some .getSibling, some .getChild, some .getParent, some .getPropLen,
      some .inc, some .dec, some .printAddr, none, some .removeObj, some .printObj, some .ret,
      some .jump, some .printPaddr, some .load, some .not]
  | op0 => [some .rtrue, some .rfalse, some .print, some .printRet, some .nop, some .save,
      some .restore, some .restart, some .retPopped, some .pop, some .quit, some .newLine,
      some .showStatus, some .verify, none, some .piracy]
  | var => [some .call, some .storew, some .storeb, some .putProp, some .sread,
      some .printChar, some .printNum, some .random, some .push, some .pull,
      some .splitWindow, some .setWindow, none, none, none, none, none, none, none,
      some .outputStream, some .inputStream, some .soundEffect]

namespace Opcode

/-- The opcode of a class and a number, if version 3 has one. -/
def ofEncoding (count : OperandCount) (number : Nat) : Option Opcode :=
  count.opcodes[number]?.join

/-- The class and the number by which an opcode is found. -/
def encoding : Opcode → OperandCount × Nat
  | je => (.op2, 1)
  | jl => (.op2, 2)
  | jg => (.op2, 3)
  | decChk => (.op2, 4)
  | incChk => (.op2, 5)
  | jin => (.op2, 6)
  | test => (.op2, 7)
  | or => (.op2, 8)
  | and => (.op2, 9)
  | testAttr => (.op2, 10)
  | setAttr => (.op2, 11)
  | clearAttr => (.op2, 12)
  | store => (.op2, 13)
  | insertObj => (.op2, 14)
  | loadw => (.op2, 15)
  | loadb => (.op2, 16)
  | getProp => (.op2, 17)
  | getPropAddr => (.op2, 18)
  | getNextProp => (.op2, 19)
  | add => (.op2, 20)
  | sub => (.op2, 21)
  | mul => (.op2, 22)
  | div => (.op2, 23)
  | mod => (.op2, 24)
  | jz => (.op1, 0)
  | getSibling => (.op1, 1)
  | getChild => (.op1, 2)
  | getParent => (.op1, 3)
  | getPropLen => (.op1, 4)
  | inc => (.op1, 5)
  | dec => (.op1, 6)
  | printAddr => (.op1, 7)
  | removeObj => (.op1, 9)
  | printObj => (.op1, 10)
  | ret => (.op1, 11)
  | jump => (.op1, 12)
  | printPaddr => (.op1, 13)
  | load => (.op1, 14)
  | not => (.op1, 15)
  | rtrue => (.op0, 0)
  | rfalse => (.op0, 1)
  | print => (.op0, 2)
  | printRet => (.op0, 3)
  | nop => (.op0, 4)
  | save => (.op0, 5)
  | restore => (.op0, 6)
  | restart => (.op0, 7)
  | retPopped => (.op0, 8)
  | pop => (.op0, 9)
  | quit => (.op0, 10)
  | newLine => (.op0, 11)
  | showStatus => (.op0, 12)
  | verify => (.op0, 13)
  | piracy => (.op0, 15)
  | call => (.var, 0)
  | storew => (.var, 1)
  | storeb => (.var, 2)
  | putProp => (.var, 3)
  | sread => (.var, 4)
  | printChar => (.var, 5)
  | printNum => (.var, 6)
  | random => (.var, 7)
  | push => (.var, 8)
  | pull => (.var, 9)
  | splitWindow => (.var, 10)
  | setWindow => (.var, 11)
  | outputStream => (.var, 19)
  | inputStream => (.var, 20)
  | soundEffect => (.var, 21)

def count (op : Opcode) : OperandCount :=
  op.encoding.1

def number (op : Opcode) : Nat :=
  op.encoding.2

/-- The name that the Z-Machine Standard gives the opcode. -/
def name : Opcode → String
  | je => "je"
  | jl => "jl"
  | jg => "jg"
  | jz => "jz"
  | test => "test"
  | or => "or"
  | and => "and"
  | not => "not"
  | add => "add"
  | sub => "sub"
  | mul => "mul"
  | div => "div"
  | mod => "mod"
  | random => "random"
  | jin => "jin"
  | testAttr => "test_attr"
  | setAttr => "set_attr"
  | clearAttr => "clear_attr"
  | insertObj => "insert_obj"
  | removeObj => "remove_obj"
  | getProp => "get_prop"
  | getPropAddr => "get_prop_addr"
  | getNextProp => "get_next_prop"
  | getPropLen => "get_prop_len"
  | putProp => "put_prop"
  | getSibling => "get_sibling"
  | getChild => "get_child"
  | getParent => "get_parent"
  | printObj => "print_obj"
  | store => "store"
  | load => "load"
  | loadw => "loadw"
  | loadb => "loadb"
  | storew => "storew"
  | storeb => "storeb"
  | inc => "inc"
  | dec => "dec"
  | incChk => "inc_chk"
  | decChk => "dec_chk"
  | push => "push"
  | pull => "pull"
  | pop => "pop"
  | print => "print"
  | printRet => "print_ret"
  | printAddr => "print_addr"
  | printPaddr => "print_paddr"
  | printChar => "print_char"
  | printNum => "print_num"
  | newLine => "new_line"
  | showStatus => "show_status"
  | sread => "sread"
  | splitWindow => "split_window"
  | setWindow => "set_window"
  | outputStream => "output_stream"
  | inputStream => "input_stream"
  | soundEffect => "sound_effect"
  | call => "call"
  | ret => "ret"
  | rtrue => "rtrue"
  | rfalse => "rfalse"
  | retPopped => "ret_popped"
  | jump => "jump"
  | nop => "nop"
  | save => "save"
  | restore => "restore"
  | restart => "restart"
  | quit => "quit"
  | verify => "verify"
  | piracy => "piracy"

def storesResult : Opcode → Bool
  | or | and | not | add | sub | mul | div | mod | random => true
  | getProp | getPropAddr | getNextProp | getPropLen | getSibling | getChild | getParent => true
  | load | loadw | loadb | call => true
  | _ => false

def hasBranch : Opcode → Bool
  | je | jl | jg | jz | test | jin | testAttr | getSibling | getChild => true
  | incChk | decChk | save | restore | verify | piracy => true
  | _ => false

def hasText : Opcode → Bool
  | print | printRet => true
  | _ => false

/-- The first operand names a variable rather than giving a value. -/
def takesVariableReference : Opcode → Bool
  | store | load | inc | dec | incChk | decChk | pull => true
  | _ => false

@[simp] theorem ofEncoding_encoding (op : Opcode) : ofEncoding op.count op.number = some op := by
  cases op <;> rfl

theorem encoding_of_ofEncoding {count : OperandCount} {number : Nat} {op : Opcode}
    (h : ofEncoding count number = some op) : op.encoding = (count, number) := by
  have bound : number < 25 := by
    have hlen : count.opcodes.length ≤ 25 := by cases count <;> decide
    rcases Nat.lt_or_ge number count.opcodes.length with hlt | hge
    · omega
    · simp [ofEncoding, List.getElem?_eq_none hge] at h
  have table : ∀ c : OperandCount, ∀ n : Fin 25, ∀ o : Opcode,
      ofEncoding c n.val = some o → o.encoding = (c, n.val) := by
    intro c n o ho
    cases c <;> revert ho <;> revert o <;> revert n <;> decide
  exact table count ⟨number, bound⟩ op h

end Opcode

end ZMachine
