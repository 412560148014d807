import Mathlib.Data.BitVec

/-!
# Instruction attributes (`inat.h`, `inat-tables.h`)

The attribute of an opcode says how the decoder reads what follows it. The
entries that a table does not name are 0.
-/

namespace RtBackup

namespace Inat

/-- `insn_attr_t`. -/
abbrev InsnAttr := BitVec 32

/-- The entries of an array of attributes. -/
abbrev Table := List (Nat × InsnAttr)

/-! ## Last prefixes, other prefixes, REX and VEX -/

def pfxOpndsz : InsnAttr := 1
def pfxRepe : InsnAttr := 2
def pfxRepne : InsnAttr := 3
def pfxLock : InsnAttr := 4
def pfxCs : InsnAttr := 5
def pfxDs : InsnAttr := 6
def pfxEs : InsnAttr := 7
def pfxFs : InsnAttr := 8
def pfxGs : InsnAttr := 9
def pfxSs : InsnAttr := 10
def pfxAddrsz : InsnAttr := 11
def pfxRex : InsnAttr := 12
def pfxVex2 : InsnAttr := 13
def pfxVex3 : InsnAttr := 14

def lstpfxMax : InsnAttr := 3
def lgcpfxMax : InsnAttr := 11

/-! ## Sizes of immediates -/

def immByte : InsnAttr := 1
def immWord : InsnAttr := 2
def immDword : InsnAttr := 3
def immQword : InsnAttr := 4
def immPtr : InsnAttr := 5
def immVword32 : InsnAttr := 6
def immVword : InsnAttr := 7

/-! ## The fields of an attribute -/

def pfxMask : InsnAttr := 0xf
def escOffs : Nat := 4
def escMask : InsnAttr := 0x3 <<< escOffs
def grpOffs : Nat := escOffs + 2
def grpMask : InsnAttr := 0x1f <<< grpOffs
def immOffs : Nat := grpOffs + 5
def immMask : InsnAttr := 0x7 <<< immOffs
def flagOffs : Nat := immOffs + 3

def modrm : InsnAttr := 1 <<< flagOffs
def force64 : InsnAttr := 1 <<< (flagOffs + 1)
def scndimm : InsnAttr := 1 <<< (flagOffs + 2)
def moffset : InsnAttr := 1 <<< (flagOffs + 3)
def variant : InsnAttr := 1 <<< (flagOffs + 4)
def vexok : InsnAttr := 1 <<< (flagOffs + 5)
def vexonly : InsnAttr := 1 <<< (flagOffs + 6)

def makePrefix (pfx : InsnAttr) : InsnAttr := pfx
def makeEscape (esc : InsnAttr) : InsnAttr := esc <<< escOffs
def makeGroup (grp : InsnAttr) : InsnAttr := grp <<< grpOffs ||| modrm
def makeImm (imm : InsnAttr) : InsnAttr := imm <<< immOffs

/-! ## Tables of opcodes and of groups -/

/-- One byte opcodes. -/
def primaryTable : Table := [
  (0x00, modrm), (0x01, modrm), (0x02, modrm), (0x03, modrm), (0x04, makeImm immByte),
  (0x05, makeImm immVword32), (0x08, modrm), (0x09, modrm), (0x0a, modrm), (0x0b, modrm),
  (0x0c, makeImm immByte), (0x0d, makeImm immVword32), (0x0f, makeEscape 1), (0x10, modrm),
  (0x11, modrm), (0x12, modrm), (0x13, modrm), (0x14, makeImm immByte),
  (0x15, makeImm immVword32), (0x18, modrm), (0x19, modrm), (0x1a, modrm), (0x1b, modrm),
  (0x1c, makeImm immByte), (0x1d, makeImm immVword32), (0x20, modrm), (0x21, modrm),
  (0x22, modrm), (0x23, modrm), (0x24, makeImm immByte), (0x25, makeImm immVword32),
  (0x26, makePrefix pfxEs), (0x28, modrm), (0x29, modrm), (0x2a, modrm), (0x2b, modrm),
  (0x2c, makeImm immByte), (0x2d, makeImm immVword32), (0x2e, makePrefix pfxCs), (0x30, modrm),
  (0x31, modrm), (0x32, modrm), (0x33, modrm), (0x34, makeImm immByte),
  (0x35, makeImm immVword32), (0x36, makePrefix pfxSs), (0x38, modrm), (0x39, modrm),
  (0x3a, modrm), (0x3b, modrm), (0x3c, makeImm immByte), (0x3d, makeImm immVword32),
  (0x3e, makePrefix pfxDs), (0x40, makePrefix pfxRex), (0x41, makePrefix pfxRex),
  (0x42, makePrefix pfxRex), (0x43, makePrefix pfxRex), (0x44, makePrefix pfxRex),
  (0x45, makePrefix pfxRex), (0x46, makePrefix pfxRex), (0x47, makePrefix pfxRex),
  (0x48, makePrefix pfxRex), (0x49, makePrefix pfxRex), (0x4a, makePrefix pfxRex),
  (0x4b, makePrefix pfxRex), (0x4c, makePrefix pfxRex), (0x4d, makePrefix pfxRex),
  (0x4e, makePrefix pfxRex), (0x4f, makePrefix pfxRex), (0x50, force64), (0x51, force64),
  (0x52, force64), (0x53, force64), (0x54, force64), (0x55, force64), (0x56, force64),
  (0x57, force64), (0x58, force64), (0x59, force64), (0x5a, force64), (0x5b, force64),
  (0x5c, force64), (0x5d, force64), (0x5e, force64), (0x5f, force64), (0x62, modrm),
  (0x63, modrm ||| modrm), (0x64, makePrefix pfxFs), (0x65, makePrefix pfxGs),
  (0x66, makePrefix pfxOpndsz), (0x67, makePrefix pfxAddrsz),
  (0x68, makeImm immVword32 ||| force64), (0x69, makeImm immVword32 ||| modrm),
  (0x6a, makeImm immByte ||| force64), (0x6b, makeImm immByte ||| modrm), (0x70, makeImm immByte),
  (0x71, makeImm immByte), (0x72, makeImm immByte), (0x73, makeImm immByte),
  (0x74, makeImm immByte), (0x75, makeImm immByte), (0x76, makeImm immByte),
  (0x77, makeImm immByte), (0x78, makeImm immByte), (0x79, makeImm immByte),
  (0x7a, makeImm immByte), (0x7b, makeImm immByte), (0x7c, makeImm immByte),
  (0x7d, makeImm immByte), (0x7e, makeImm immByte), (0x7f, makeImm immByte),
  (0x80, makeImm immByte ||| modrm ||| makeGroup 1),
  (0x81, makeImm immVword32 ||| modrm ||| makeGroup 1),
  (0x82, makeImm immByte ||| modrm ||| makeGroup 1),
  (0x83, makeImm immByte ||| modrm ||| makeGroup 1), (0x84, modrm), (0x85, modrm), (0x86, modrm),
  (0x87, modrm), (0x88, modrm), (0x89, modrm), (0x8a, modrm), (0x8b, modrm), (0x8c, modrm),
  (0x8d, modrm), (0x8e, modrm), (0x8f, makeGroup 2 ||| modrm ||| force64), (0x9a, makeImm immPtr),
  (0x9c, force64), (0x9d, force64), (0xa0, moffset), (0xa1, moffset), (0xa2, moffset),
  (0xa3, moffset), (0xa8, makeImm immByte), (0xa9, makeImm immVword32), (0xb0, makeImm immByte),
  (0xb1, makeImm immByte), (0xb2, makeImm immByte), (0xb3, makeImm immByte),
  (0xb4, makeImm immByte), (0xb5, makeImm immByte), (0xb6, makeImm immByte),
  (0xb7, makeImm immByte), (0xb8, makeImm immVword), (0xb9, makeImm immVword),
  (0xba, makeImm immVword), (0xbb, makeImm immVword), (0xbc, makeImm immVword),
  (0xbd, makeImm immVword), (0xbe, makeImm immVword), (0xbf, makeImm immVword),
  (0xc0, makeImm immByte ||| modrm ||| makeGroup 3),
  (0xc1, makeImm immByte ||| modrm ||| makeGroup 3), (0xc2, makeImm immWord ||| force64),
  (0xc4, modrm ||| makePrefix pfxVex3), (0xc5, modrm ||| makePrefix pfxVex2),
  (0xc6, makeImm immByte ||| modrm ||| makeGroup 4),
  (0xc7, makeImm immVword32 ||| modrm ||| makeGroup 4), (0xc8, makeImm immWord ||| scndimm),
  (0xc9, force64), (0xca, makeImm immWord), (0xcd, makeImm immByte),
  (0xd0, modrm ||| makeGroup 3), (0xd1, modrm ||| makeGroup 3), (0xd2, modrm ||| makeGroup 3),
  (0xd3, modrm ||| makeGroup 3), (0xd4, makeImm immByte), (0xd5, makeImm immByte), (0xd8, modrm),
  (0xd9, modrm), (0xda, modrm), (0xdb, modrm), (0xdc, modrm), (0xdd, modrm), (0xde, modrm),
  (0xdf, modrm), (0xe0, makeImm immByte ||| force64), (0xe1, makeImm immByte ||| force64),
  (0xe2, makeImm immByte ||| force64), (0xe3, makeImm immByte ||| force64),
  (0xe4, makeImm immByte), (0xe5, makeImm immByte), (0xe6, makeImm immByte),
  (0xe7, makeImm immByte), (0xe8, makeImm immVword32 ||| force64),
  (0xe9, makeImm immVword32 ||| force64), (0xea, makeImm immPtr),
  (0xeb, makeImm immByte ||| force64), (0xf0, makePrefix pfxLock), (0xf2, makePrefix pfxRepne),
  (0xf3, makePrefix pfxRepe), (0xf6, modrm ||| makeGroup 5), (0xf7, modrm ||| makeGroup 6),
  (0xfe, makeGroup 7), (0xff, makeGroup 8)]

/-- 2-byte opcodes (0x0f). -/
def escapeTable1 : Table := [
  (0x00, makeGroup 9), (0x01, makeGroup 10), (0x02, modrm), (0x03, modrm),
  (0x0d, modrm ||| makeGroup 11), (0x0f, makeImm immByte ||| modrm),
  (0x10, modrm ||| vexok ||| variant), (0x11, modrm ||| vexok ||| variant),
  (0x12, modrm ||| vexok ||| modrm ||| vexok ||| variant), (0x13, modrm ||| vexok ||| variant),
  (0x14, modrm ||| vexok ||| variant), (0x15, modrm ||| vexok ||| variant),
  (0x16, modrm ||| vexok ||| modrm ||| vexok ||| variant), (0x17, modrm ||| vexok ||| variant),
  (0x18, makeGroup 12), (0x1f, modrm), (0x20, modrm), (0x21, modrm), (0x22, modrm), (0x23, modrm),
  (0x28, modrm ||| vexok ||| variant), (0x29, modrm ||| vexok ||| variant),
  (0x2a, modrm ||| variant), (0x2b, modrm ||| vexok ||| variant), (0x2c, modrm ||| variant),
  (0x2d, modrm ||| variant), (0x2e, modrm ||| vexok ||| variant),
  (0x2f, modrm ||| vexok ||| variant), (0x38, makeEscape 2), (0x3a, makeEscape 3), (0x40, modrm),
  (0x41, modrm), (0x42, modrm), (0x43, modrm), (0x44, modrm), (0x45, modrm), (0x46, modrm),
  (0x47, modrm), (0x48, modrm), (0x49, modrm), (0x4a, modrm), (0x4b, modrm), (0x4c, modrm),
  (0x4d, modrm), (0x4e, modrm), (0x4f, modrm), (0x50, modrm ||| vexok ||| variant),
  (0x51, modrm ||| vexok ||| variant), (0x52, modrm ||| vexok ||| variant),
  (0x53, modrm ||| vexok ||| variant), (0x54, modrm ||| vexok ||| variant),
  (0x55, modrm ||| vexok ||| variant), (0x56, modrm ||| vexok ||| variant),
  (0x57, modrm ||| vexok ||| variant), (0x58, modrm ||| vexok ||| variant),
  (0x59, modrm ||| vexok ||| variant), (0x5a, modrm ||| vexok ||| variant),
  (0x5b, modrm ||| vexok ||| variant), (0x5c, modrm ||| vexok ||| variant),
  (0x5d, modrm ||| vexok ||| variant), (0x5e, modrm ||| vexok ||| variant),
  (0x5f, modrm ||| vexok ||| variant), (0x60, modrm ||| variant), (0x61, modrm ||| variant),
  (0x62, modrm ||| variant), (0x63, modrm ||| variant), (0x64, modrm ||| variant),
  (0x65, modrm ||| variant), (0x66, modrm ||| variant), (0x67, modrm ||| variant),
  (0x68, modrm ||| variant), (0x69, modrm ||| variant), (0x6a, modrm ||| variant),
  (0x6b, modrm ||| variant), (0x6c, variant), (0x6d, variant), (0x6e, modrm ||| variant),
  (0x6f, modrm ||| variant), (0x70, makeImm immByte ||| modrm ||| variant), (0x71, makeGroup 13),
  (0x72, makeGroup 14), (0x73, makeGroup 15), (0x74, modrm ||| variant),
  (0x75, modrm ||| variant), (0x76, modrm ||| variant), (0x77, vexok), (0x78, modrm),
  (0x79, modrm), (0x7c, variant), (0x7d, variant), (0x7e, modrm ||| variant),
  (0x7f, modrm ||| variant), (0x80, makeImm immVword32 ||| force64),
  (0x81, makeImm immVword32 ||| force64), (0x82, makeImm immVword32 ||| force64),
  (0x83, makeImm immVword32 ||| force64), (0x84, makeImm immVword32 ||| force64),
  (0x85, makeImm immVword32 ||| force64), (0x86, makeImm immVword32 ||| force64),
  (0x87, makeImm immVword32 ||| force64), (0x88, makeImm immVword32 ||| force64),
  (0x89, makeImm immVword32 ||| force64), (0x8a, makeImm immVword32 ||| force64),
  (0x8b, makeImm immVword32 ||| force64), (0x8c, makeImm immVword32 ||| force64),
  (0x8d, makeImm immVword32 ||| force64), (0x8e, makeImm immVword32 ||| force64),
  (0x8f, makeImm immVword32 ||| force64), (0x90, modrm), (0x91, modrm), (0x92, modrm),
  (0x93, modrm), (0x94, modrm), (0x95, modrm), (0x96, modrm), (0x97, modrm), (0x98, modrm),
  (0x99, modrm), (0x9a, modrm), (0x9b, modrm), (0x9c, modrm), (0x9d, modrm), (0x9e, modrm),
  (0x9f, modrm), (0xa0, force64), (0xa1, force64), (0xa3, modrm),
  (0xa4, makeImm immByte ||| modrm), (0xa5, modrm), (0xa6, makeGroup 16), (0xa7, makeGroup 17),
  (0xa8, force64), (0xa9, force64), (0xab, modrm), (0xac, makeImm immByte ||| modrm),
  (0xad, modrm), (0xae, makeGroup 18), (0xaf, modrm), (0xb0, modrm), (0xb1, modrm), (0xb2, modrm),
  (0xb3, modrm), (0xb4, modrm), (0xb5, modrm), (0xb6, modrm), (0xb7, modrm), (0xb8, variant),
  (0xb9, makeGroup 19), (0xba, makeImm immByte ||| modrm ||| makeGroup 20), (0xbb, modrm),
  (0xbc, modrm), (0xbd, modrm), (0xbe, modrm), (0xbf, modrm), (0xc0, modrm), (0xc1, modrm),
  (0xc2, makeImm immByte ||| modrm ||| vexok ||| variant), (0xc3, modrm),
  (0xc4, makeImm immByte ||| modrm ||| variant), (0xc5, makeImm immByte ||| modrm ||| variant),
  (0xc6, makeImm immByte ||| modrm ||| vexok ||| variant), (0xc7, makeGroup 21), (0xd0, variant),
  (0xd1, modrm ||| variant), (0xd2, modrm ||| variant), (0xd3, modrm ||| variant),
  (0xd4, modrm ||| variant), (0xd5, modrm ||| variant), (0xd6, variant),
  (0xd7, modrm ||| variant), (0xd8, modrm ||| variant), (0xd9, modrm ||| variant),
  (0xda, modrm ||| variant), (0xdb, modrm ||| variant), (0xdc, modrm ||| variant),
  (0xdd, modrm ||| variant), (0xde, modrm ||| variant), (0xdf, modrm ||| variant),
  (0xe0, modrm ||| variant), (0xe1, modrm ||| variant), (0xe2, modrm ||| variant),
  (0xe3, modrm ||| variant), (0xe4, modrm ||| variant), (0xe5, modrm ||| variant),
  (0xe6, variant), (0xe7, modrm ||| variant), (0xe8, modrm ||| variant),
  (0xe9, modrm ||| variant), (0xea, modrm ||| variant), (0xeb, modrm ||| variant),
  (0xec, modrm ||| variant), (0xed, modrm ||| variant), (0xee, modrm ||| variant),
  (0xef, modrm ||| variant), (0xf0, variant), (0xf1, modrm ||| variant),
  (0xf2, modrm ||| variant), (0xf3, modrm ||| variant), (0xf4, modrm ||| variant),
  (0xf5, modrm ||| variant), (0xf6, modrm ||| variant), (0xf7, modrm ||| variant),
  (0xf8, modrm ||| variant), (0xf9, modrm ||| variant), (0xfa, modrm ||| variant),
  (0xfb, modrm ||| variant), (0xfc, modrm ||| variant), (0xfd, modrm ||| variant),
  (0xfe, modrm ||| variant)]

def escapeTable1_1 : Table := [
  (0x10, modrm ||| vexok), (0x11, modrm ||| vexok), (0x12, modrm ||| vexok),
  (0x13, modrm ||| vexok), (0x14, modrm ||| vexok), (0x15, modrm ||| vexok),
  (0x16, modrm ||| vexok), (0x17, modrm ||| vexok), (0x28, modrm ||| vexok),
  (0x29, modrm ||| vexok), (0x2a, modrm), (0x2b, modrm ||| vexok), (0x2c, modrm), (0x2d, modrm),
  (0x2e, modrm ||| vexok), (0x2f, modrm ||| vexok), (0x50, modrm ||| vexok),
  (0x51, modrm ||| vexok), (0x54, modrm ||| vexok), (0x55, modrm ||| vexok),
  (0x56, modrm ||| vexok), (0x57, modrm ||| vexok), (0x58, modrm ||| vexok),
  (0x59, modrm ||| vexok), (0x5a, modrm ||| vexok), (0x5b, modrm ||| vexok),
  (0x5c, modrm ||| vexok), (0x5d, modrm ||| vexok), (0x5e, modrm ||| vexok),
  (0x5f, modrm ||| vexok), (0x60, modrm ||| vexok), (0x61, modrm ||| vexok),
  (0x62, modrm ||| vexok), (0x63, modrm ||| vexok), (0x64, modrm ||| vexok),
  (0x65, modrm ||| vexok), (0x66, modrm ||| vexok), (0x67, modrm ||| vexok),
  (0x68, modrm ||| vexok), (0x69, modrm ||| vexok), (0x6a, modrm ||| vexok),
  (0x6b, modrm ||| vexok), (0x6c, modrm ||| vexok), (0x6d, modrm ||| vexok),
  (0x6e, modrm ||| vexok), (0x6f, modrm ||| vexok), (0x70, makeImm immByte ||| modrm ||| vexok),
  (0x74, modrm ||| vexok), (0x75, modrm ||| vexok), (0x76, modrm ||| vexok),
  (0x7c, modrm ||| vexok), (0x7d, modrm ||| vexok), (0x7e, modrm ||| vexok),
  (0x7f, modrm ||| vexok), (0xc2, makeImm immByte ||| modrm ||| vexok),
  (0xc4, makeImm immByte ||| modrm ||| vexok), (0xc5, makeImm immByte ||| modrm ||| vexok),
  (0xc6, makeImm immByte ||| modrm ||| vexok), (0xd0, modrm ||| vexok), (0xd1, modrm ||| vexok),
  (0xd2, modrm ||| vexok), (0xd3, modrm ||| vexok), (0xd4, modrm ||| vexok),
  (0xd5, modrm ||| vexok), (0xd6, modrm ||| vexok), (0xd7, modrm ||| vexok),
  (0xd8, modrm ||| vexok), (0xd9, modrm ||| vexok), (0xda, modrm ||| vexok),
  (0xdb, modrm ||| vexok), (0xdc, modrm ||| vexok), (0xdd, modrm ||| vexok),
  (0xde, modrm ||| vexok), (0xdf, modrm ||| vexok), (0xe0, modrm ||| vexok),
  (0xe1, modrm ||| vexok), (0xe2, modrm ||| vexok), (0xe3, modrm ||| vexok),
  (0xe4, modrm ||| vexok), (0xe5, modrm ||| vexok), (0xe6, modrm ||| vexok),
  (0xe7, modrm ||| vexok), (0xe8, modrm ||| vexok), (0xe9, modrm ||| vexok),
  (0xea, modrm ||| vexok), (0xeb, modrm ||| vexok), (0xec, modrm ||| vexok),
  (0xed, modrm ||| vexok), (0xee, modrm ||| vexok), (0xef, modrm ||| vexok),
  (0xf1, modrm ||| vexok), (0xf2, modrm ||| vexok), (0xf3, modrm ||| vexok),
  (0xf4, modrm ||| vexok), (0xf5, modrm ||| vexok), (0xf6, modrm ||| vexok),
  (0xf7, modrm ||| vexok), (0xf8, modrm ||| vexok), (0xf9, modrm ||| vexok),
  (0xfa, modrm ||| vexok), (0xfb, modrm ||| vexok), (0xfc, modrm ||| vexok),
  (0xfd, modrm ||| vexok), (0xfe, modrm ||| vexok)]

def escapeTable1_2 : Table := [
  (0x10, modrm ||| vexok), (0x11, modrm ||| vexok), (0x12, modrm ||| vexok),
  (0x16, modrm ||| vexok), (0x2a, modrm ||| vexok), (0x2c, modrm ||| vexok),
  (0x2d, modrm ||| vexok), (0x51, modrm ||| vexok), (0x52, modrm ||| vexok),
  (0x53, modrm ||| vexok), (0x58, modrm ||| vexok), (0x59, modrm ||| vexok),
  (0x5a, modrm ||| vexok), (0x5b, modrm ||| vexok), (0x5c, modrm ||| vexok),
  (0x5d, modrm ||| vexok), (0x5e, modrm ||| vexok), (0x5f, modrm ||| vexok),
  (0x6f, modrm ||| vexok), (0x70, makeImm immByte ||| modrm ||| vexok), (0x7e, modrm ||| vexok),
  (0x7f, modrm ||| vexok), (0xb8, modrm), (0xc2, makeImm immByte ||| modrm ||| vexok),
  (0xd6, modrm), (0xe6, modrm ||| vexok)]

def escapeTable1_3 : Table := [
  (0x10, modrm ||| vexok), (0x11, modrm ||| vexok), (0x12, modrm ||| vexok),
  (0x2a, modrm ||| vexok), (0x2c, modrm ||| vexok), (0x2d, modrm ||| vexok),
  (0x51, modrm ||| vexok), (0x58, modrm ||| vexok), (0x59, modrm ||| vexok),
  (0x5a, modrm ||| vexok), (0x5c, modrm ||| vexok), (0x5d, modrm ||| vexok),
  (0x5e, modrm ||| vexok), (0x5f, modrm ||| vexok), (0x70, makeImm immByte ||| modrm ||| vexok),
  (0x7c, modrm ||| vexok), (0x7d, modrm ||| vexok), (0xc2, makeImm immByte ||| modrm ||| vexok),
  (0xd0, modrm ||| vexok), (0xd6, modrm), (0xe6, modrm ||| vexok), (0xf0, modrm ||| vexok)]

/-- 3-byte opcodes 1 (0x0f 0x38). -/
def escapeTable2 : Table := [
  (0x00, modrm ||| variant), (0x01, modrm ||| variant), (0x02, modrm ||| variant),
  (0x03, modrm ||| variant), (0x04, modrm ||| variant), (0x05, modrm ||| variant),
  (0x06, modrm ||| variant), (0x07, modrm ||| variant), (0x08, modrm ||| variant),
  (0x09, modrm ||| variant), (0x0a, modrm ||| variant), (0x0b, modrm ||| variant),
  (0x0c, variant), (0x0d, variant), (0x0e, variant), (0x0f, variant), (0x10, variant),
  (0x14, variant), (0x15, variant), (0x17, variant), (0x18, variant), (0x19, variant),
  (0x1a, variant), (0x1c, modrm ||| variant), (0x1d, modrm ||| variant),
  (0x1e, modrm ||| variant), (0x20, variant), (0x21, variant), (0x22, variant), (0x23, variant),
  (0x24, variant), (0x25, variant), (0x28, variant), (0x29, variant), (0x2a, variant),
  (0x2b, variant), (0x2c, variant), (0x2d, variant), (0x2e, variant), (0x2f, variant),
  (0x30, variant), (0x31, variant), (0x32, variant), (0x33, variant), (0x34, variant),
  (0x35, variant), (0x37, variant), (0x38, variant), (0x39, variant), (0x3a, variant),
  (0x3b, variant), (0x3c, variant), (0x3d, variant), (0x3e, variant), (0x3f, variant),
  (0x40, variant), (0x41, variant), (0x80, variant), (0x81, variant), (0x96, variant),
  (0x97, variant), (0x98, variant), (0x99, variant), (0x9a, variant), (0x9b, variant),
  (0x9c, variant), (0x9d, variant), (0x9e, variant), (0x9f, variant), (0xa6, variant),
  (0xa7, variant), (0xa8, variant), (0xa9, variant), (0xaa, variant), (0xab, variant),
  (0xac, variant), (0xad, variant), (0xae, variant), (0xaf, variant), (0xb6, variant),
  (0xb7, variant), (0xb8, variant), (0xb9, variant), (0xba, variant), (0xbb, variant),
  (0xbc, variant), (0xbd, variant), (0xbe, variant), (0xbf, variant), (0xdb, variant),
  (0xdc, variant), (0xdd, variant), (0xde, variant), (0xdf, variant), (0xf0, modrm ||| variant),
  (0xf1, modrm ||| variant)]

def escapeTable2_1 : Table := [
  (0x00, modrm ||| vexok), (0x01, modrm ||| vexok), (0x02, modrm ||| vexok),
  (0x03, modrm ||| vexok), (0x04, modrm ||| vexok), (0x05, modrm ||| vexok),
  (0x06, modrm ||| vexok), (0x07, modrm ||| vexok), (0x08, modrm ||| vexok),
  (0x09, modrm ||| vexok), (0x0a, modrm ||| vexok), (0x0b, modrm ||| vexok),
  (0x0c, modrm ||| vexok ||| vexonly), (0x0d, modrm ||| vexok ||| vexonly),
  (0x0e, modrm ||| vexok ||| vexonly), (0x0f, modrm ||| vexok ||| vexonly), (0x10, modrm),
  (0x14, modrm), (0x15, modrm), (0x17, modrm ||| vexok), (0x18, modrm ||| vexok ||| vexonly),
  (0x19, modrm ||| vexok ||| vexonly), (0x1a, modrm ||| vexok ||| vexonly),
  (0x1c, modrm ||| vexok), (0x1d, modrm ||| vexok), (0x1e, modrm ||| vexok),
  (0x20, modrm ||| vexok), (0x21, modrm ||| vexok), (0x22, modrm ||| vexok),
  (0x23, modrm ||| vexok), (0x24, modrm ||| vexok), (0x25, modrm ||| vexok),
  (0x28, modrm ||| vexok), (0x29, modrm ||| vexok), (0x2a, modrm ||| vexok),
  (0x2b, modrm ||| vexok), (0x2c, modrm ||| vexok ||| vexonly),
  (0x2d, modrm ||| vexok ||| vexonly), (0x2e, modrm ||| vexok ||| vexonly),
  (0x2f, modrm ||| vexok ||| vexonly), (0x30, modrm ||| vexok), (0x31, modrm ||| vexok),
  (0x32, modrm ||| vexok), (0x33, modrm ||| vexok), (0x34, modrm ||| vexok),
  (0x35, modrm ||| vexok), (0x37, modrm ||| vexok), (0x38, modrm ||| vexok),
  (0x39, modrm ||| vexok), (0x3a, modrm ||| vexok), (0x3b, modrm ||| vexok),
  (0x3c, modrm ||| vexok), (0x3d, modrm ||| vexok), (0x3e, modrm ||| vexok),
  (0x3f, modrm ||| vexok), (0x40, modrm ||| vexok), (0x41, modrm ||| vexok), (0x80, modrm),
  (0x81, modrm), (0x96, modrm ||| vexok), (0x97, modrm ||| vexok), (0x98, modrm ||| vexok),
  (0x99, modrm ||| vexok), (0x9a, modrm ||| vexok), (0x9b, modrm ||| vexok),
  (0x9c, modrm ||| vexok), (0x9d, modrm ||| vexok), (0x9e, modrm ||| vexok),
  (0x9f, modrm ||| vexok), (0xa6, modrm ||| vexok), (0xa7, modrm ||| vexok),
  (0xa8, modrm ||| vexok), (0xa9, modrm ||| vexok), (0xaa, modrm ||| vexok),
  (0xab, modrm ||| vexok), (0xac, modrm ||| vexok), (0xad, modrm ||| vexok),
  (0xae, modrm ||| vexok), (0xaf, modrm ||| vexok), (0xb6, modrm ||| vexok),
  (0xb7, modrm ||| vexok), (0xb8, modrm ||| vexok), (0xb9, modrm ||| vexok),
  (0xba, modrm ||| vexok), (0xbb, modrm ||| vexok), (0xbc, modrm ||| vexok),
  (0xbd, modrm ||| vexok), (0xbe, modrm ||| vexok), (0xbf, modrm ||| vexok),
  (0xdb, modrm ||| vexok), (0xdc, modrm ||| vexok), (0xdd, modrm ||| vexok),
  (0xde, modrm ||| vexok), (0xdf, modrm ||| vexok)]

def escapeTable2_3 : Table := [
  (0xf0, modrm), (0xf1, modrm)]

/-- 3-byte opcodes 2 (0x0f 0x3a). -/
def escapeTable3 : Table := [
  (0x04, variant), (0x05, variant), (0x06, variant), (0x08, variant), (0x09, variant),
  (0x0a, variant), (0x0b, variant), (0x0c, variant), (0x0d, variant), (0x0e, variant),
  (0x0f, makeImm immByte ||| modrm ||| variant), (0x14, variant), (0x15, variant),
  (0x16, variant), (0x17, variant), (0x18, variant), (0x19, variant), (0x20, variant),
  (0x21, variant), (0x22, variant), (0x40, variant), (0x41, variant), (0x42, variant),
  (0x44, variant), (0x4a, variant), (0x4b, variant), (0x4c, variant), (0x60, variant),
  (0x61, variant), (0x62, variant), (0x63, variant), (0xdf, variant)]

def escapeTable3_1 : Table := [
  (0x04, makeImm immByte ||| modrm ||| vexok ||| vexonly),
  (0x05, makeImm immByte ||| modrm ||| vexok ||| vexonly),
  (0x06, makeImm immByte ||| modrm ||| vexok ||| vexonly),
  (0x08, makeImm immByte ||| modrm ||| vexok), (0x09, makeImm immByte ||| modrm ||| vexok),
  (0x0a, makeImm immByte ||| modrm ||| vexok), (0x0b, makeImm immByte ||| modrm ||| vexok),
  (0x0c, makeImm immByte ||| modrm ||| vexok), (0x0d, makeImm immByte ||| modrm ||| vexok),
  (0x0e, makeImm immByte ||| modrm ||| vexok), (0x0f, makeImm immByte ||| modrm ||| vexok),
  (0x14, makeImm immByte ||| modrm ||| vexok), (0x15, makeImm immByte ||| modrm ||| vexok),
  (0x16, makeImm immByte ||| modrm ||| vexok), (0x17, makeImm immByte ||| modrm ||| vexok),
  (0x18, makeImm immByte ||| modrm ||| vexok ||| vexonly),
  (0x19, makeImm immByte ||| modrm ||| vexok ||| vexonly),
  (0x20, makeImm immByte ||| modrm ||| vexok), (0x21, makeImm immByte ||| modrm ||| vexok),
  (0x22, makeImm immByte ||| modrm ||| vexok), (0x40, makeImm immByte ||| modrm ||| vexok),
  (0x41, makeImm immByte ||| modrm ||| vexok), (0x42, makeImm immByte ||| modrm ||| vexok),
  (0x44, makeImm immByte ||| modrm ||| vexok),
  (0x4a, makeImm immByte ||| modrm ||| vexok ||| vexonly),
  (0x4b, makeImm immByte ||| modrm ||| vexok ||| vexonly),
  (0x4c, makeImm immByte ||| modrm ||| vexok ||| vexonly),
  (0x60, makeImm immByte ||| modrm ||| vexok), (0x61, makeImm immByte ||| modrm ||| vexok),
  (0x62, makeImm immByte ||| modrm ||| vexok), (0x63, makeImm immByte ||| modrm ||| vexok),
  (0xdf, makeImm immByte ||| modrm ||| vexok)]

/-- Grp3_1. -/
def groupTable5 : Table := [
  (0x0, makeImm immByte ||| modrm), (0x2, modrm), (0x3, modrm), (0x4, modrm), (0x5, modrm),
  (0x6, modrm), (0x7, modrm)]

/-- Grp3_2. -/
def groupTable6 : Table := [
  (0x0, makeImm immVword32 ||| modrm), (0x2, modrm), (0x3, modrm), (0x4, modrm), (0x5, modrm),
  (0x6, modrm), (0x7, modrm)]

/-- Grp4. -/
def groupTable7 : Table := [
  (0x0, modrm), (0x1, modrm)]

/-- Grp5. -/
def groupTable8 : Table := [
  (0x0, modrm), (0x1, modrm), (0x2, modrm ||| force64), (0x3, modrm), (0x4, modrm ||| force64),
  (0x5, modrm), (0x6, modrm ||| force64)]

/-- Grp6. -/
def groupTable9 : Table := [
  (0x0, modrm), (0x1, modrm), (0x2, modrm), (0x3, modrm), (0x4, modrm), (0x5, modrm)]

/-- Grp7. -/
def groupTable10 : Table := [
  (0x0, modrm), (0x1, modrm), (0x2, modrm), (0x3, modrm), (0x4, modrm), (0x6, modrm), (0x7, modrm)]

/-- Grp9. -/
def groupTable21 : Table := [
  (0x1, modrm), (0x6, modrm ||| variant), (0x7, modrm)]

def groupTable21_1 : Table := [
  (0x6, modrm)]

def groupTable21_2 : Table := [
  (0x6, modrm)]

/-- Grp12. -/
def groupTable13 : Table := [
  (0x2, makeImm immByte ||| modrm ||| variant), (0x4, makeImm immByte ||| modrm ||| variant),
  (0x6, makeImm immByte ||| modrm ||| variant)]

def groupTable13_1 : Table := [
  (0x2, makeImm immByte ||| modrm ||| vexok), (0x4, makeImm immByte ||| modrm ||| vexok),
  (0x6, makeImm immByte ||| modrm ||| vexok)]

/-- Grp13. -/
def groupTable14 : Table := [
  (0x2, makeImm immByte ||| modrm ||| variant), (0x4, makeImm immByte ||| modrm ||| variant),
  (0x6, makeImm immByte ||| modrm ||| variant)]

def groupTable14_1 : Table := [
  (0x2, makeImm immByte ||| modrm ||| vexok), (0x4, makeImm immByte ||| modrm ||| vexok),
  (0x6, makeImm immByte ||| modrm ||| vexok)]

/-- Grp14. -/
def groupTable15 : Table := [
  (0x2, makeImm immByte ||| modrm ||| variant), (0x3, variant),
  (0x6, makeImm immByte ||| modrm ||| variant), (0x7, variant)]

def groupTable15_1 : Table := [
  (0x2, makeImm immByte ||| modrm ||| vexok), (0x3, makeImm immByte ||| modrm ||| vexok),
  (0x6, makeImm immByte ||| modrm ||| vexok), (0x7, makeImm immByte ||| modrm ||| vexok)]

/-- Grp15. -/
def groupTable18 : Table := [
  (0x2, vexok), (0x3, vexok)]

/-- Grp16. -/
def groupTable12 : Table := [
  (0x0, modrm), (0x1, modrm), (0x2, modrm), (0x3, modrm)]

/-! ## Arrays of tables

`none` is NULL. The second index is the last prefix. -/

def escapeTables : Nat → Nat → Option Table
  | 1, 0 => some escapeTable1
  | 1, 1 => some escapeTable1_1
  | 1, 2 => some escapeTable1_2
  | 1, 3 => some escapeTable1_3
  | 2, 0 => some escapeTable2
  | 2, 1 => some escapeTable2_1
  | 2, 3 => some escapeTable2_3
  | 3, 0 => some escapeTable3
  | 3, 1 => some escapeTable3_1
  | _, _ => none

def groupTables : Nat → Nat → Option Table
  | 5, 0 => some groupTable5
  | 6, 0 => some groupTable6
  | 7, 0 => some groupTable7
  | 8, 0 => some groupTable8
  | 9, 0 => some groupTable9
  | 10, 0 => some groupTable10
  | 12, 0 => some groupTable12
  | 13, 0 => some groupTable13
  | 13, 1 => some groupTable13_1
  | 14, 0 => some groupTable14
  | 14, 1 => some groupTable14_1
  | 15, 0 => some groupTable15
  | 15, 1 => some groupTable15_1
  | 18, 0 => some groupTable18
  | 21, 0 => some groupTable21
  | 21, 1 => some groupTable21_1
  | 21, 2 => some groupTable21_2
  | _, _ => none

def avxTables : Nat → Nat → Option Table
  | 1, 0 => some escapeTable1
  | 1, 1 => some escapeTable1_1
  | 1, 2 => some escapeTable1_2
  | 1, 3 => some escapeTable1_3
  | 2, 0 => some escapeTable2
  | 2, 1 => some escapeTable2_1
  | 2, 3 => some escapeTable2_3
  | 3, 0 => some escapeTable3
  | 3, 1 => some escapeTable3_1
  | _, _ => none

end Inat

end RtBackup
