/-!
# Instructions of the stack machine

Two instruction sets share most of their codes. The wide set is what programs are compiled to; the
fast set lacks the exception instructions, has a code of its own for dropping the top of the
stack, and checks types where the wide set drops.
-/

namespace StackScript

/-- What an instruction does. -/
inductive Opcode where
  | loadConst | loadVar | storeVar | loadGlobal | storeGlobal | loadLocal | storeLocal | pop | dup
  | add | sub | mul | div | mod | pow | eq | ne | lt | gt | le | ge | isIn | both | either
  | negate | jump | jumpIfFalse | jumpIfTrue | call | ret | loadFunc | typeConvert | rotTwo
  | rotThree | len | getItem | setItem | buildList | setAttr | importFrom | importModule
  | buildDict | buildTuple | formatValue | getIter | forIter | listAppend | getAttr | hasAttr
  | createClass | createObject | callMethod | tryBegin | tryEnd | catchBegin | catchEnd
  | finallyBegin | finallyEnd | throwTop | reraise | print | halt | typeCheck
  deriving DecidableEq, Repr, Inhabited

namespace Opcode

/-- The wide instruction set: codes, instructions and labels. -/
def wideSet : List (Nat × Opcode × String) := [
  (0x01, .loadConst, "LOAD_CONST"), (0x02, .loadVar, "LOAD_VAR"), (0x03, .storeVar, "STORE_VAR"),
  (0x04, .loadGlobal, "LOAD_GLOBAL"), (0x05, .storeGlobal, "STORE_GLOBAL"),
  (0x06, .loadLocal, "LOAD_LOCAL"), (0x07, .storeLocal, "STORE_LOCAL"), (0x60, .pop, "POP"),
  (0x09, .dup, "DUP"), (0x10, .add, "ADD"), (0x11, .sub, "SUB"), (0x12, .mul, "MUL"),
  (0x13, .div, "DIV"), (0x14, .mod, "MOD"), (0x15, .pow, "POW"), (0x20, .eq, "EQ"),
  (0x21, .ne, "NE"), (0x22, .lt, "LT"), (0x23, .gt, "GT"), (0x24, .le, "LE"), (0x25, .ge, "GE"),
  (0x26, .isIn, "IN"), (0x30, .both, "AND"), (0x31, .either, "OR"), (0x32, .negate, "NOT"),
  (0x40, .jump, "JUMP"), (0x41, .jumpIfFalse, "JUMP_IF_FALSE"),
  (0x42, .jumpIfTrue, "JUMP_IF_TRUE"), (0x50, .call, "CALL"), (0x51, .ret, "RETURN"),
  (0x52, .loadFunc, "LOAD_FUNC"), (0x61, .typeConvert, "TYPE_CONVERT"),
  (0x62, .rotTwo, "ROT_TWO"), (0x63, .rotThree, "ROT_THREE"), (0x64, .len, "LEN"),
  (0x65, .getItem, "GET_ITEM"), (0x66, .setItem, "SET_ITEM"), (0x67, .buildList, "BUILD_LIST"),
  (0x68, .setAttr, "SET_ATTR"), (0x69, .importFrom, "IMPORT_FROM"),
  (0x6A, .importModule, "IMPORT_MODULE"), (0x7A, .buildDict, "BUILD_DICT"),
  (0x6B, .buildTuple, "BUILD_TUPLE"), (0x6C, .formatValue, "FORMAT_VALUE"),
  (0x6D, .getIter, "GET_ITER"), (0x6E, .forIter, "FOR_ITER"), (0x6F, .listAppend, "LIST_APPEND"),
  (0x70, .getAttr, "GET_ATTR"), (0x72, .hasAttr, "HAS_ATTR"),
  (0x80, .createClass, "CREATE_CLASS"), (0x81, .createObject, "CREATE_OBJECT"),
  (0x82, .callMethod, "CALL_METHOD"), (0x90, .tryBegin, "TRY_BEGIN"), (0x91, .tryEnd, "TRY_END"),
  (0x92, .catchBegin, "CATCH_BEGIN"), (0x93, .catchEnd, "CATCH_END"),
  (0x94, .finallyBegin, "FINALLY_BEGIN"), (0x95, .finallyEnd, "FINALLY_END"),
  (0x96, .throwTop, "THROW"), (0x97, .reraise, "RERAISE"), (0x98, .print, "PRINT"),
  (0xFF, .halt, "HALT")]

def wideOnly : List Nat :=
  [0x60, 0x61, 0x72, 0x90, 0x91, 0x92, 0x93, 0x94, 0x95, 0x96, 0x97, 0x98]

def fastSet : List (Nat × Opcode × String) :=
  (0x08, .pop, "POP") :: (0x60, .typeCheck, "TYPE_CHECK") ::
    wideSet.filter fun row => !wideOnly.contains row.1

def code (op : Opcode) : Nat :=
  ((wideSet.find? fun row => row.2.1 == op).map (·.1)).getD 0

/-- The instruction of a label in the wide set, in which checking a type has the code of dropping
the top of the stack. -/
def ofLabel? (label : String) : Option Opcode :=
  if label == "TYPE_CHECK" then some .pop
  else (wideSet.find? fun row => row.2.2 == label).map (·.2.1)

end Opcode

end StackScript
