import System370.Text.LetterCase

/-!
# Machine instructions

An instruction has a mnemonic, a code of one or two octets and a format.  The
format says what operands are written and where their fields stand:

* `Format.operands` lists the operands, so that their number, the places of the
  storage operands and what may stand in their parentheses follow from it;
* `Instruction.length` and `Instruction.skeleton` give the octets before any
  operand is filled in;
* `Instruction.find?` looks a mnemonic up, in any case.
-/

namespace System370

/-- What a value alone in the parentheses of a storage operand means. -/
inductive Inner where
  /-- The base register. -/
  | base
  /-- An index register, which a base register may follow. -/
  | index
  /-- A length, which a base register may follow. -/
  | length
  deriving DecidableEq, Repr

/-- One operand of an instruction. -/
inductive OperandForm where
  | register
  /-- A number from zero to `limit`; of a whole octet also a negative one. -/
  | immediate (limit : Nat)
  | storage (inner : Inner)
  deriving DecidableEq, Repr

/-- Whether an operand addresses storage. -/
def OperandForm.isStorage : OperandForm → Bool
  | storage _ => true
  | _ => false

/-- The layout of an instruction. -/
inductive Format where
  /-- `R1,R2` -/
  | rr
  /-- `R1` -/
  | rrSingle
  /-- `I` -/
  | rrImmediate
  /-- `R2`, the mask implied -/
  | rrMask
  /-- `R1,D2(X2,B2)` -/
  | rx
  /-- `D2(X2,B2)`, the mask implied -/
  | rxMask
  /-- `R1,R3,D2(B2)` -/
  | rs
  /-- `R1,D2(B2)` -/
  | rsShift
  /-- `D1(B1),I2` -/
  | si
  /-- `D2(B2)` -/
  | s
  /-- no operands -/
  | sNone
  /-- `D1(L,B1),D2(B2)` -/
  | ssLength
  /-- `D1(L1,B1),D2(L2,B2)` -/
  | ssLengths
  /-- `D1(L1,B1),D2(B2),I3` -/
  | ssShift
  deriving DecidableEq, Repr

namespace Format

/-- The number of octets. -/
def length : Format → Nat
  | rr | rrSingle | rrImmediate | rrMask => 2
  | ssLength | ssLengths | ssShift => 6
  | _ => 4

/-- The operands as written, from left to right. -/
def operands : Format → List OperandForm
  | rr => [.register, .register]
  | rrSingle => [.register]
  | rrImmediate => [.immediate 0xFF]
  | rrMask => [.register]
  | rx => [.register, .storage .index]
  | rxMask => [.storage .index]
  | rs => [.register, .register, .storage .base]
  | rsShift => [.register, .storage .base]
  | si => [.storage .base, .immediate 0xFF]
  | s => [.storage .base]
  | sNone => []
  | ssLength => [.storage .length, .storage .base]
  | ssLengths => [.storage .length, .storage .length]
  | ssShift => [.storage .length, .storage .base, .immediate 0x0F]

/-- Whether operand `i` addresses storage. -/
def isStorageOperand (f : Format) (i : Nat) : Bool :=
  (f.operands[i]?).any OperandForm.isStorage

/-- The number that the architecture gives storage operand `i`: one for the
first operand of the formats that name storage first, otherwise two. -/
def ordinal (f : Format) (i : Nat) : Nat :=
  match f with
  | si => 1
  | ssLength | ssLengths | ssShift => i + 1
  | _ => 2

/-- Whether the boundary of the storage operand is worth a remark. -/
def checksAlignment : Format → Bool
  | rx | rxMask | rs | rsShift => true
  | _ => false

end Format

/-- What an instruction does with its storage operand. -/
inductive StorageUse where
  | reads
  | modifiesFirst
  | modifiesSecond
  | branches
  | executes
  deriving DecidableEq, Repr

/-- A machine instruction. -/
structure Instruction where
  mnemonic : Bytes
  /-- One octet, or two if above 255. -/
  code : Nat
  format : Format
  /-- The condition mask of an extended branch. -/
  mask : Nat
  /-- The boundary that the storage operand is expected on. -/
  alignment : Nat
  use : StorageUse
  deriving DecidableEq, Repr

namespace Instruction

/-- The number of octets. -/
def length (op : Instruction) : Nat := op.format.length

/-- The number of operands. -/
def operandCount (op : Instruction) : Nat := op.format.operands.length

/-- The second octet before operands are filled in. -/
def secondOctet (op : Instruction) : UInt8 :=
  if op.format = .rrMask ∨ op.format = .rxMask then (op.mask * 16).toUInt8
  else if 0xFF < op.code then op.code.toUInt8
  else 0

/-- The octets before operands are filled in: the code and an implied mask. -/
def skeleton (op : Instruction) : Bytes :=
  [(if 0xFF < op.code then op.code / 256 else op.code).toUInt8,
    op.secondOctet] ++
    List.replicate (op.length - 2) 0

/-- Instructions on registers alone. -/
def registerTable : List Instruction :=
  [⟨bytes "SPM", 0x04, .rrSingle, 0, 1, .reads⟩,
    ⟨bytes "BALR", 0x05, .rr, 0, 1, .reads⟩,
    ⟨bytes "BCTR", 0x06, .rr, 0, 1, .reads⟩,
    ⟨bytes "BCR", 0x07, .rr, 0, 1, .reads⟩,
    ⟨bytes "SSK", 0x08, .rr, 0, 1, .reads⟩,
    ⟨bytes "ISK", 0x09, .rr, 0, 1, .reads⟩,
    ⟨bytes "SVC", 0x0A, .rrImmediate, 0, 1, .reads⟩,
    ⟨bytes "MVCL", 0x0E, .rr, 0, 1, .reads⟩,
    ⟨bytes "CLCL", 0x0F, .rr, 0, 1, .reads⟩,
    ⟨bytes "LPR", 0x10, .rr, 0, 1, .reads⟩,
    ⟨bytes "LNR", 0x11, .rr, 0, 1, .reads⟩,
    ⟨bytes "LTR", 0x12, .rr, 0, 1, .reads⟩,
    ⟨bytes "LCR", 0x13, .rr, 0, 1, .reads⟩,
    ⟨bytes "NR", 0x14, .rr, 0, 1, .reads⟩,
    ⟨bytes "CLR", 0x15, .rr, 0, 1, .reads⟩,
    ⟨bytes "OR", 0x16, .rr, 0, 1, .reads⟩,
    ⟨bytes "XR", 0x17, .rr, 0, 1, .reads⟩,
    ⟨bytes "LR", 0x18, .rr, 0, 1, .reads⟩,
    ⟨bytes "CR", 0x19, .rr, 0, 1, .reads⟩,
    ⟨bytes "AR", 0x1A, .rr, 0, 1, .reads⟩,
    ⟨bytes "SR", 0x1B, .rr, 0, 1, .reads⟩,
    ⟨bytes "MR", 0x1C, .rr, 0, 1, .reads⟩,
    ⟨bytes "DR", 0x1D, .rr, 0, 1, .reads⟩,
    ⟨bytes "ALR", 0x1E, .rr, 0, 1, .reads⟩,
    ⟨bytes "SLR", 0x1F, .rr, 0, 1, .reads⟩,
    ⟨bytes "LPDR", 0x20, .rr, 0, 1, .reads⟩,
    ⟨bytes "LNDR", 0x21, .rr, 0, 1, .reads⟩,
    ⟨bytes "LTDR", 0x22, .rr, 0, 1, .reads⟩,
    ⟨bytes "LCDR", 0x23, .rr, 0, 1, .reads⟩,
    ⟨bytes "HDR", 0x24, .rr, 0, 1, .reads⟩,
    ⟨bytes "LRDR", 0x25, .rr, 0, 1, .reads⟩,
    ⟨bytes "MXR", 0x26, .rr, 0, 1, .reads⟩,
    ⟨bytes "MXDR", 0x27, .rr, 0, 1, .reads⟩,
    ⟨bytes "LDR", 0x28, .rr, 0, 1, .reads⟩,
    ⟨bytes "CDR", 0x29, .rr, 0, 1, .reads⟩,
    ⟨bytes "ADR", 0x2A, .rr, 0, 1, .reads⟩,
    ⟨bytes "SDR", 0x2B, .rr, 0, 1, .reads⟩,
    ⟨bytes "MDR", 0x2C, .rr, 0, 1, .reads⟩,
    ⟨bytes "DDR", 0x2D, .rr, 0, 1, .reads⟩,
    ⟨bytes "AWR", 0x2E, .rr, 0, 1, .reads⟩,
    ⟨bytes "SWR", 0x2F, .rr, 0, 1, .reads⟩,
    ⟨bytes "LPER", 0x30, .rr, 0, 1, .reads⟩,
    ⟨bytes "LNER", 0x31, .rr, 0, 1, .reads⟩,
    ⟨bytes "LTER", 0x32, .rr, 0, 1, .reads⟩,
    ⟨bytes "LCER", 0x33, .rr, 0, 1, .reads⟩,
    ⟨bytes "HER", 0x34, .rr, 0, 1, .reads⟩,
    ⟨bytes "LRER", 0x35, .rr, 0, 1, .reads⟩,
    ⟨bytes "AXR", 0x36, .rr, 0, 1, .reads⟩,
    ⟨bytes "SXR", 0x37, .rr, 0, 1, .reads⟩,
    ⟨bytes "LER", 0x38, .rr, 0, 1, .reads⟩,
    ⟨bytes "CER", 0x39, .rr, 0, 1, .reads⟩,
    ⟨bytes "AER", 0x3A, .rr, 0, 1, .reads⟩,
    ⟨bytes "SER", 0x3B, .rr, 0, 1, .reads⟩,
    ⟨bytes "MER", 0x3C, .rr, 0, 1, .reads⟩,
    ⟨bytes "DER", 0x3D, .rr, 0, 1, .reads⟩,
    ⟨bytes "AUR", 0x3E, .rr, 0, 1, .reads⟩,
    ⟨bytes "SUR", 0x3F, .rr, 0, 1, .reads⟩]

/-- Instructions on a register and an indexed storage operand. -/
def indexedTable : List Instruction :=
  [⟨bytes "STH", 0x40, .rx, 0, 2, .modifiesSecond⟩,
    ⟨bytes "LA", 0x41, .rx, 0, 1, .reads⟩,
    ⟨bytes "STC", 0x42, .rx, 0, 1, .modifiesSecond⟩,
    ⟨bytes "IC", 0x43, .rx, 0, 1, .reads⟩,
    ⟨bytes "EX", 0x44, .rx, 0, 2, .executes⟩,
    ⟨bytes "BAL", 0x45, .rx, 0, 1, .branches⟩,
    ⟨bytes "BCT", 0x46, .rx, 0, 1, .branches⟩,
    ⟨bytes "BC", 0x47, .rx, 0, 1, .branches⟩,
    ⟨bytes "LH", 0x48, .rx, 0, 2, .reads⟩,
    ⟨bytes "CH", 0x49, .rx, 0, 2, .reads⟩,
    ⟨bytes "AH", 0x4A, .rx, 0, 2, .reads⟩,
    ⟨bytes "SH", 0x4B, .rx, 0, 2, .reads⟩,
    ⟨bytes "MH", 0x4C, .rx, 0, 2, .reads⟩,
    ⟨bytes "CVD", 0x4E, .rx, 0, 8, .modifiesSecond⟩,
    ⟨bytes "CVB", 0x4F, .rx, 0, 8, .reads⟩,
    ⟨bytes "ST", 0x50, .rx, 0, 4, .modifiesSecond⟩,
    ⟨bytes "N", 0x54, .rx, 0, 4, .reads⟩,
    ⟨bytes "CL", 0x55, .rx, 0, 4, .reads⟩,
    ⟨bytes "O", 0x56, .rx, 0, 4, .reads⟩,
    ⟨bytes "X", 0x57, .rx, 0, 4, .reads⟩,
    ⟨bytes "L", 0x58, .rx, 0, 4, .reads⟩,
    ⟨bytes "C", 0x59, .rx, 0, 4, .reads⟩,
    ⟨bytes "A", 0x5A, .rx, 0, 4, .reads⟩,
    ⟨bytes "S", 0x5B, .rx, 0, 4, .reads⟩,
    ⟨bytes "M", 0x5C, .rx, 0, 4, .reads⟩,
    ⟨bytes "D", 0x5D, .rx, 0, 4, .reads⟩,
    ⟨bytes "AL", 0x5E, .rx, 0, 4, .reads⟩,
    ⟨bytes "SL", 0x5F, .rx, 0, 4, .reads⟩,
    ⟨bytes "STD", 0x60, .rx, 0, 8, .modifiesSecond⟩,
    ⟨bytes "MXD", 0x67, .rx, 0, 8, .reads⟩,
    ⟨bytes "LD", 0x68, .rx, 0, 8, .reads⟩,
    ⟨bytes "CD", 0x69, .rx, 0, 8, .reads⟩,
    ⟨bytes "AD", 0x6A, .rx, 0, 8, .reads⟩,
    ⟨bytes "SD", 0x6B, .rx, 0, 8, .reads⟩,
    ⟨bytes "MD", 0x6C, .rx, 0, 8, .reads⟩,
    ⟨bytes "DD", 0x6D, .rx, 0, 8, .reads⟩,
    ⟨bytes "AW", 0x6E, .rx, 0, 8, .reads⟩,
    ⟨bytes "SW", 0x6F, .rx, 0, 8, .reads⟩,
    ⟨bytes "STE", 0x70, .rx, 0, 4, .modifiesSecond⟩,
    ⟨bytes "LE", 0x78, .rx, 0, 4, .reads⟩,
    ⟨bytes "CE", 0x79, .rx, 0, 4, .reads⟩,
    ⟨bytes "AE", 0x7A, .rx, 0, 4, .reads⟩,
    ⟨bytes "SE", 0x7B, .rx, 0, 4, .reads⟩,
    ⟨bytes "ME", 0x7C, .rx, 0, 4, .reads⟩,
    ⟨bytes "DE", 0x7D, .rx, 0, 4, .reads⟩,
    ⟨bytes "AU", 0x7E, .rx, 0, 4, .reads⟩,
    ⟨bytes "SU", 0x7F, .rx, 0, 4, .reads⟩]

/-- Control and input/output instructions. -/
def controlTable : List Instruction :=
  [⟨bytes "SSM", 0x8000, .s, 0, 1, .reads⟩,
    ⟨bytes "LPSW", 0x8200, .s, 0, 8, .reads⟩,
    ⟨bytes "TS", 0x9300, .s, 0, 1, .modifiesFirst⟩,
    ⟨bytes "SIO", 0x9C00, .s, 0, 1, .reads⟩,
    ⟨bytes "SIOF", 0x9C01, .s, 0, 1, .reads⟩,
    ⟨bytes "TIO", 0x9D00, .s, 0, 1, .reads⟩,
    ⟨bytes "CLRIO", 0x9D01, .s, 0, 1, .reads⟩,
    ⟨bytes "HIO", 0x9E00, .s, 0, 1, .reads⟩,
    ⟨bytes "HDV", 0x9E01, .s, 0, 1, .reads⟩,
    ⟨bytes "TCH", 0x9F00, .s, 0, 1, .reads⟩,
    ⟨bytes "STIDP", 0xB202, .s, 0, 8, .modifiesFirst⟩,
    ⟨bytes "STIDC", 0xB203, .s, 0, 4, .modifiesFirst⟩,
    ⟨bytes "SCK", 0xB204, .s, 0, 8, .reads⟩,
    ⟨bytes "STCK", 0xB205, .s, 0, 8, .modifiesFirst⟩,
    ⟨bytes "SCKC", 0xB206, .s, 0, 8, .reads⟩,
    ⟨bytes "STCKC", 0xB207, .s, 0, 8, .modifiesFirst⟩,
    ⟨bytes "SPT", 0xB208, .s, 0, 8, .reads⟩,
    ⟨bytes "STPT", 0xB209, .s, 0, 8, .modifiesFirst⟩,
    ⟨bytes "SPKA", 0xB20A, .s, 0, 1, .reads⟩,
    ⟨bytes "IPK", 0xB20B, .sNone, 0, 1, .reads⟩,
    ⟨bytes "PTLB", 0xB20D, .sNone, 0, 1, .reads⟩,
    ⟨bytes "SPX", 0xB210, .s, 0, 4, .reads⟩,
    ⟨bytes "STPX", 0xB211, .s, 0, 4, .modifiesFirst⟩,
    ⟨bytes "STAP", 0xB212, .s, 0, 2, .modifiesFirst⟩,
    ⟨bytes "RRB", 0xB213, .s, 0, 1, .reads⟩]

/-- Instructions on registers and a storage operand; shifts. -/
def registerStorageTable : List Instruction :=
  [⟨bytes "BXH", 0x86, .rs, 0, 1, .branches⟩,
    ⟨bytes "BXLE", 0x87, .rs, 0, 1, .branches⟩,
    ⟨bytes "SRL", 0x88, .rsShift, 0, 1, .reads⟩,
    ⟨bytes "SLL", 0x89, .rsShift, 0, 1, .reads⟩,
    ⟨bytes "SRA", 0x8A, .rsShift, 0, 1, .reads⟩,
    ⟨bytes "SLA", 0x8B, .rsShift, 0, 1, .reads⟩,
    ⟨bytes "SRDL", 0x8C, .rsShift, 0, 1, .reads⟩,
    ⟨bytes "SLDL", 0x8D, .rsShift, 0, 1, .reads⟩,
    ⟨bytes "SRDA", 0x8E, .rsShift, 0, 1, .reads⟩,
    ⟨bytes "SLDA", 0x8F, .rsShift, 0, 1, .reads⟩,
    ⟨bytes "STM", 0x90, .rs, 0, 4, .modifiesSecond⟩,
    ⟨bytes "LM", 0x98, .rs, 0, 4, .reads⟩,
    ⟨bytes "SIGP", 0xAE, .rs, 0, 1, .reads⟩,
    ⟨bytes "STCTL", 0xB6, .rs, 0, 4, .modifiesSecond⟩,
    ⟨bytes "LCTL", 0xB7, .rs, 0, 4, .reads⟩,
    ⟨bytes "CS", 0xBA, .rs, 0, 4, .modifiesSecond⟩,
    ⟨bytes "CDS", 0xBB, .rs, 0, 8, .modifiesSecond⟩,
    ⟨bytes "CLM", 0xBD, .rs, 0, 1, .reads⟩,
    ⟨bytes "STCM", 0xBE, .rs, 0, 1, .modifiesSecond⟩,
    ⟨bytes "ICM", 0xBF, .rs, 0, 1, .reads⟩]

/-- Instructions on storage with an immediate octet. -/
def immediateTable : List Instruction :=
  [⟨bytes "WRD", 0x84, .si, 0, 1, .reads⟩,
    ⟨bytes "RDD", 0x85, .si, 0, 1, .modifiesFirst⟩,
    ⟨bytes "TM", 0x91, .si, 0, 1, .reads⟩,
    ⟨bytes "MVI", 0x92, .si, 0, 1, .modifiesFirst⟩,
    ⟨bytes "NI", 0x94, .si, 0, 1, .modifiesFirst⟩,
    ⟨bytes "CLI", 0x95, .si, 0, 1, .reads⟩,
    ⟨bytes "OI", 0x96, .si, 0, 1, .modifiesFirst⟩,
    ⟨bytes "XI", 0x97, .si, 0, 1, .modifiesFirst⟩,
    ⟨bytes "STNSM", 0xAC, .si, 0, 1, .modifiesFirst⟩,
    ⟨bytes "STOSM", 0xAD, .si, 0, 1, .modifiesFirst⟩]

/-- Instructions on two storage operands. -/
def storageTable : List Instruction :=
  [⟨bytes "MVN", 0xD1, .ssLength, 0, 1, .modifiesFirst⟩,
    ⟨bytes "MVC", 0xD2, .ssLength, 0, 1, .modifiesFirst⟩,
    ⟨bytes "MVZ", 0xD3, .ssLength, 0, 1, .modifiesFirst⟩,
    ⟨bytes "NC", 0xD4, .ssLength, 0, 1, .modifiesFirst⟩,
    ⟨bytes "CLC", 0xD5, .ssLength, 0, 1, .reads⟩,
    ⟨bytes "OC", 0xD6, .ssLength, 0, 1, .modifiesFirst⟩,
    ⟨bytes "XC", 0xD7, .ssLength, 0, 1, .modifiesFirst⟩,
    ⟨bytes "TR", 0xDC, .ssLength, 0, 1, .modifiesFirst⟩,
    ⟨bytes "TRT", 0xDD, .ssLength, 0, 1, .reads⟩,
    ⟨bytes "ED", 0xDE, .ssLength, 0, 1, .modifiesFirst⟩,
    ⟨bytes "EDMK", 0xDF, .ssLength, 0, 1, .modifiesFirst⟩,
    ⟨bytes "SRP", 0xF0, .ssShift, 0, 1, .modifiesFirst⟩,
    ⟨bytes "MVO", 0xF1, .ssLengths, 0, 1, .modifiesFirst⟩,
    ⟨bytes "PACK", 0xF2, .ssLengths, 0, 1, .modifiesFirst⟩,
    ⟨bytes "UNPK", 0xF3, .ssLengths, 0, 1, .modifiesFirst⟩,
    ⟨bytes "ZAP", 0xF8, .ssLengths, 0, 1, .modifiesFirst⟩,
    ⟨bytes "CP", 0xF9, .ssLengths, 0, 1, .reads⟩,
    ⟨bytes "AP", 0xFA, .ssLengths, 0, 1, .modifiesFirst⟩,
    ⟨bytes "SP", 0xFB, .ssLengths, 0, 1, .modifiesFirst⟩,
    ⟨bytes "MP", 0xFC, .ssLengths, 0, 1, .modifiesFirst⟩,
    ⟨bytes "DP", 0xFD, .ssLengths, 0, 1, .modifiesFirst⟩]

/-- Branches whose mnemonic implies the condition mask. -/
def branchTable : List Instruction :=
  [⟨bytes "B", 0x47, .rxMask, 15, 1, .branches⟩,
    ⟨bytes "NOP", 0x47, .rxMask, 0, 1, .branches⟩,
    ⟨bytes "BH", 0x47, .rxMask, 2, 1, .branches⟩,
    ⟨bytes "BL", 0x47, .rxMask, 4, 1, .branches⟩,
    ⟨bytes "BE", 0x47, .rxMask, 8, 1, .branches⟩,
    ⟨bytes "BNH", 0x47, .rxMask, 13, 1, .branches⟩,
    ⟨bytes "BNL", 0x47, .rxMask, 11, 1, .branches⟩,
    ⟨bytes "BNE", 0x47, .rxMask, 7, 1, .branches⟩,
    ⟨bytes "BO", 0x47, .rxMask, 1, 1, .branches⟩,
    ⟨bytes "BP", 0x47, .rxMask, 2, 1, .branches⟩,
    ⟨bytes "BM", 0x47, .rxMask, 4, 1, .branches⟩,
    ⟨bytes "BZ", 0x47, .rxMask, 8, 1, .branches⟩,
    ⟨bytes "BNP", 0x47, .rxMask, 13, 1, .branches⟩,
    ⟨bytes "BNM", 0x47, .rxMask, 11, 1, .branches⟩,
    ⟨bytes "BNZ", 0x47, .rxMask, 7, 1, .branches⟩,
    ⟨bytes "BNO", 0x47, .rxMask, 14, 1, .branches⟩,
    ⟨bytes "BR", 0x07, .rrMask, 15, 1, .reads⟩,
    ⟨bytes "NOPR", 0x07, .rrMask, 0, 1, .reads⟩,
    ⟨bytes "BHR", 0x07, .rrMask, 2, 1, .reads⟩,
    ⟨bytes "BLR", 0x07, .rrMask, 4, 1, .reads⟩,
    ⟨bytes "BER", 0x07, .rrMask, 8, 1, .reads⟩,
    ⟨bytes "BNHR", 0x07, .rrMask, 13, 1, .reads⟩,
    ⟨bytes "BNLR", 0x07, .rrMask, 11, 1, .reads⟩,
    ⟨bytes "BNER", 0x07, .rrMask, 7, 1, .reads⟩,
    ⟨bytes "BOR", 0x07, .rrMask, 1, 1, .reads⟩,
    ⟨bytes "BPR", 0x07, .rrMask, 2, 1, .reads⟩,
    ⟨bytes "BMR", 0x07, .rrMask, 4, 1, .reads⟩,
    ⟨bytes "BZR", 0x07, .rrMask, 8, 1, .reads⟩,
    ⟨bytes "BNPR", 0x07, .rrMask, 13, 1, .reads⟩,
    ⟨bytes "BNMR", 0x07, .rrMask, 11, 1, .reads⟩,
    ⟨bytes "BNZR", 0x07, .rrMask, 7, 1, .reads⟩,
    ⟨bytes "BNOR", 0x07, .rrMask, 14, 1, .reads⟩]

/-- All instructions. -/
def table : List Instruction :=
  registerTable ++ indexedTable ++ controlTable ++ registerStorageTable ++
    immediateTable ++
    storageTable ++ branchTable

/-- The instruction of a mnemonic, in any case. -/
def find? (mnemonic : Bytes) : Option Instruction :=
  let name := toUpper mnemonic
  table.find? (·.mnemonic = name)

end Instruction

end System370
