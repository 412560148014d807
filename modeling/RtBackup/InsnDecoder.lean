import RtBackup.Inat
import RtBackup.Lib.ByteFile
import RtBackup.Lib.InputReader
import Mathlib.Data.BitVec

/-!
# The instruction decoder (`insn.h`, `insn.c`)

`struct insn` is filled in field by field from the front of the instruction. Each
`insn_get_*` first collects what comes before, unless `got` says that it is
there. The memory that `next_byte` points to is the input of a reader, which fails
where a byte cannot be read. A store behind the four bytes of a field fails as
well.
-/

namespace RtBackup

open ByteFile InputReader Inat

/-! ## `struct insn` -/

/-- `struct insn_field`. The union of `value` and `bytes` is kept as the bytes. -/
structure FieldState where
  bytes : Vector UInt8 4 := Vector.replicate 4 0
  got : Bool := false
  nbytes : UInt8 := 0

namespace FieldState

def value (f : FieldState) : BitVec 32 := BitVec.ofNat 32 (leVal f.bytes.toList)

/-- `value` as an `insn_byte_t`. -/
def byteValue (f : FieldState) : UInt8 := f.bytes[0]

/-- Of the prefixes this is the last one. -/
def lastByte (f : FieldState) : UInt8 := f.bytes[3]

def wordBytes (v : BitVec 32) : Vector UInt8 4 :=
  ⟨(leBytes 4 v.toNat).toArray, by rw [List.size_toArray, leBytes_length]⟩

/-- Sets `value` and `nbytes`. -/
def assign (f : FieldState) (v : BitVec 32) (nbytes : UInt8) : FieldState :=
  { f with bytes := wordBytes v, nbytes }

/-- A VEX prefix of two bytes. -/
def assignVex2 (f : FieldState) (b b2 : UInt8) : FieldState :=
  { f with bytes := (f.bytes.set 0 b).set 1 b2, nbytes := 2 }

/-- A VEX prefix of three bytes. -/
def assignVex3 (f : FieldState) (b b2 b3 : UInt8) : FieldState :=
  { f with bytes := ((f.bytes.set 0 b).set 1 b2).set 2 b3, nbytes := 3 }

/-- `bytes[i] = b`. -/
def store (f : FieldState) (i : Nat) (b : UInt8) : Option FieldState :=
  if h : i < 4 then some { f with bytes := f.bytes.set i b h } else none

end FieldState

/-- `struct insn`. -/
structure InsnState where
  prefixes : FieldState := {}
  rexPrefix : FieldState := {}
  vexPrefix : FieldState := {}
  opcode : FieldState := {}
  modrm : FieldState := {}
  sib : FieldState := {}
  displacement : FieldState := {}
  /-- In a union with `moffset1` and `immediate1`. -/
  immediate : FieldState := {}
  /-- In a union with `moffset2`. -/
  immediate2 : FieldState := {}
  attr : InsnAttr := 0
  opndBytes : UInt8
  addrBytes : UInt8
  length : UInt8 := 0
  x8664 : Bool
  /-- Counted from `kaddr`. -/
  nextByte : Nat := 0

/-- `X86_MODRM_MOD`. -/
def modrmMod (modrm : UInt8) : UInt8 := (modrm &&& 0xc0) >>> 6

/-- `X86_MODRM_RM`. -/
def modrmRm (modrm : UInt8) : UInt8 := modrm &&& 0x07

/-- `X86_SIB_BASE`. -/
def sibBase (sib : UInt8) : UInt8 := sib &&& 0x07

/-- `X86_REX_W`. -/
def rexW (rex : UInt8) : UInt8 := rex &&& 8

/-- `X86_VEX_W`. -/
def vexW (vex : UInt8) : UInt8 := vex &&& 0x80

/-- `X86_VEX3_M`. -/
def vex3M (vex : UInt8) : UInt8 := vex &&& 0x1f

/-- `X86_VEX2_M`. -/
def vex2M : UInt8 := 1

/-- `X86_VEX_P`. -/
def vexP (vex : UInt8) : UInt8 := vex &&& 0x03

abbrev Decoding := Reader UInt8

def insnInit (x8664 : Bool) : InsnState :=
  { x8664, opndBytes := 4, addrBytes := if x8664 then 8 else 4 }

namespace InsnState

/-- `insn_last_prefix`. -/
def lastPrefix (insn : InsnState) : UInt8 := insn.prefixes.lastByte

/-- `insn_is_avx`, when the prefixes have been collected. -/
def isAvx (insn : InsnState) : Bool := insn.vexPrefix.value != 0

/-- `insn_vex_m_bits`. -/
def vexMBits (insn : InsnState) : UInt8 :=
  if insn.vexPrefix.nbytes = 2 then vex2M else vex3M insn.vexPrefix.bytes[1]

/-- `insn_vex_p_bits`. -/
def vexPBits (insn : InsnState) : UInt8 :=
  if insn.vexPrefix.nbytes = 2 then vexP insn.vexPrefix.bytes[1] else vexP insn.vexPrefix.bytes[2]

/-- `next_byte += n`. -/
def skip (n : Nat) (insn : InsnState) : Decoding InsnState := do
  let _ ← take n
  return { insn with nextByte := insn.nextByte + n }

/-- `get_next` for a type of `n` bytes. -/
def getNext (n : Nat) (insn : InsnState) : Decoding (Bytes × InsnState) := do
  let bs ← take n
  return (bs, { insn with nextByte := insn.nextByte + n })

/-- `get_next(insn_byte_t, insn)`. -/
def getByte (insn : InsnState) : Decoding (UInt8 × InsnState) := do
  let b ← next
  return (b, { insn with nextByte := insn.nextByte + 1 })

/-! ## Prefixes -/

/-- A new prefix switches the size that it is about. -/
def switchSize (attr : InsnAttr) (insn : InsnState) : InsnState :=
  if isAddressSizePrefix attr then
    -- address size switches 2/4 or 4/8
    { insn with addrBytes := insn.addrBytes ^^^ if insn.x8664 then 12 else 6 }
  else if isOperandSizePrefix attr then { insn with opndBytes := insn.opndBytes ^^^ 6 }
  else insn

/-- The code at `found`, but for `lb`. -/
def passPrefix (insn : InsnState) : InsnState :=
  { insn with
    prefixes := { insn.prefixes with nbytes := insn.prefixes.nbytes + 1 }
    nextByte := insn.nextByte + 1 }

/-- The loop over the legacy prefixes, with `nb` and `lb`. -/
def scanPrefixes : Bytes → Nat → UInt8 → InsnState → Option ((Nat × UInt8 × InsnState) × Bytes)
  | [], _, _, _ => none
  | b :: rest, nb, lb, insn =>
    let attr := getOpcodeAttribute b
    if !isLegacyPrefix attr then some ((nb, lb, insn), b :: rest)
    -- skip if same prefix
    else if b ∈ insn.prefixes.bytes.toList.take nb then scanPrefixes rest nb b insn.passPrefix
    -- invalid instruction
    else if nb = 4 then some ((nb, lb, insn), b :: rest)
    else do
      let prefixes ← insn.prefixes.store nb b
      scanPrefixes rest (nb + 1) b ({ insn with prefixes }.switchSize attr).passPrefix

/-- The last prefix goes to `bytes[3]`, and what was there to where it was. -/
def setLastPrefix (nb : Nat) (lb : UInt8) (prefixes : FieldState) : FieldState :=
  let b := prefixes.lastByte
  if lb ≠ 0 ∧ lb ≠ b then
    let bytes :=
      if b ≠ 0 then prefixes.bytes.mapIdx fun i x => if i < nb ∧ x = lb then b else x
      else prefixes.bytes
    { prefixes with bytes := bytes.set 3 lb }
  else prefixes

def decodeRex (insn : InsnState) : Decoding InsnState := do
  let insn ←
    if insn.x8664 then do
      let b ← peek 0
      if isRexPrefix (getOpcodeAttribute b) then
        skip 1 { insn with
          rexPrefix := insn.rexPrefix.assign (b.toBitVec.setWidth 32) 1
          opndBytes := if rexW b ≠ 0 then 8 else insn.opndBytes }
      else pure insn
    else pure insn
  return { insn with rexPrefix := { insn.rexPrefix with got := true } }

def decodeVex (insn : InsnState) : Decoding InsnState := do
  let b ← peek 0
  let attr := getOpcodeAttribute b
  let insn ←
    if isVexPrefix attr then do
      let b2 ← peek 1
      -- with 32 bits LDS or LES
      if !insn.x8664 && modrmMod b2 != 3 then pure insn
      else if isVex3Prefix attr then do
        let b3 ← peek 2
        skip 3 { insn with
          vexPrefix := insn.vexPrefix.assignVex3 b b2 b3
          opndBytes := if insn.x8664 && vexW b3 != 0 then 8 else insn.opndBytes }
      else skip 2 { insn with vexPrefix := insn.vexPrefix.assignVex2 b b2 }
    else pure insn
  return { insn with vexPrefix := { insn.vexPrefix with got := true } }

def prefixesBody (insn : InsnState) : Decoding InsnState := do
  let (nb, lb, insn) ← (fun input => scanPrefixes input 0 0 insn : Decoding _)
  let insn ← decodeRex { insn with prefixes := setLastPrefix nb lb insn.prefixes }
  let insn ← decodeVex insn
  return { insn with prefixes := { insn.prefixes with got := true } }

/-! ## The opcode -/

/-- `opcode->bytes[0] = op`, with one byte. -/
def startOpcode (op : UInt8) (insn : InsnState) : InsnState :=
  { insn with opcode := { insn.opcode with bytes := insn.opcode.bytes.set 0 op, nbytes := 1 } }

/-- `opcode->bytes[opcode->nbytes++] = op`. -/
def pushOpcode (op : UInt8) (insn : InsnState) : Option InsnState := do
  let opcode ← insn.opcode.store insn.opcode.nbytes.toNat op
  return { insn with opcode := { opcode with nbytes := opcode.nbytes + 1 } }

/-- The loop over the escaped opcodes. -/
def escapeLoop : Bytes → InsnState → Option (InsnState × Bytes)
  | [], insn => if isEscape insn.attr then none else some (insn, [])
  | op :: rest, insn =>
    if isEscape insn.attr then do
      let insn ← insn.pushOpcode op
      escapeLoop rest { insn with
        attr := getEscapeAttribute op insn.lastPrefix insn.attr
        nextByte := insn.nextByte + 1 }
    else some (insn, op :: rest)

def opcodeBody (insn : InsnState) : Decoding InsnState := do
  let (op, insn) ← insn.getByte
  let insn := insn.startOpcode op
  let insn ←
    if insn.isAvx then
      let attr := getAvxAttribute op insn.vexMBits insn.vexPBits
      pure { insn with attr := if acceptVex attr then attr else 0 }
    else do
      let insn ← (escapeLoop · { insn with attr := getOpcodeAttribute op } : Decoding _)
      pure { insn with attr := if mustVex insn.attr then 0 else insn.attr }
  return { insn with opcode := { insn.opcode with got := true } }

/-! ## ModRM and SIB -/

def modrmBody (insn : InsnState) : Decoding InsnState := do
  let insn ←
    if hasModrm insn.attr then do
      let (mod, insn) ← insn.getByte
      pure { insn with
        modrm := insn.modrm.assign (mod.toBitVec.setWidth 32) 1
        attr :=
          if isGroup insn.attr then getGroupAttribute mod insn.lastPrefix insn.attr
          else insn.attr }
    else pure insn
  return { insn with
    opndBytes := if insn.x8664 && isForce64 insn.attr then 8 else insn.opndBytes
    modrm := { insn.modrm with got := true } }

/-- What `insn_rip_relative` answers once the ModRM byte has been collected. -/
def ripRelative (insn : InsnState) : Bool :=
  insn.modrm.nbytes != 0 && insn.modrm.byteValue &&& 0xc7 == 0x5

def sibBody (insn : InsnState) : Decoding InsnState := do
  let modrm := insn.modrm.byteValue
  let insn ←
    if insn.modrm.nbytes ≠ 0 ∧ insn.addrBytes ≠ 2 ∧ modrmMod modrm ≠ 3 ∧ modrmRm modrm = 4 then do
      let (b, insn) ← insn.getByte
      pure { insn with sib := insn.sib.assign (b.toBitVec.setWidth 32) 1 }
    else pure insn
  return { insn with sib := { insn.sib with got := true } }

/-! ## The displacement -/

/-- The value of a signed integer in memory. -/
def signedValue (bs : Bytes) : BitVec 32 :=
  (BitVec.ofNat (8 * bs.length) (leVal bs)).signExtend 32

def readDisplacement (n : Nat) (insn : InsnState) : Decoding InsnState := do
  let (bs, insn) ← insn.getNext n
  return { insn with displacement := insn.displacement.assign (signedValue bs) (UInt8.ofNat n) }

def displacementBody (insn : InsnState) : Decoding InsnState := do
  let mod := modrmMod insn.modrm.byteValue
  let rm := modrmRm insn.modrm.byteValue
  let base := sibBase insn.sib.byteValue
  let insn ←
    if insn.modrm.nbytes = 0 then pure insn
    else if mod = 3 then pure insn
    else if mod = 1 then insn.readDisplacement 1
    else if insn.addrBytes = 2 then
      if mod = 0 ∧ rm = 6 ∨ mod = 2 then insn.readDisplacement 2 else pure insn
    else if mod = 0 ∧ rm = 5 ∨ mod = 2 ∨ mod = 0 ∧ base = 5 then insn.readDisplacement 4
    else pure insn
  return { insn with displacement := { insn.displacement with got := true } }

/-! ## Immediates -/

def readImmediate (n : Nat) (insn : InsnState) : Decoding InsnState := do
  let (bs, insn) ← insn.getNext n
  return { insn with immediate := insn.immediate.assign (signedValue bs) (UInt8.ofNat n) }

def readImmediate2 (n : Nat) (insn : InsnState) : Decoding InsnState := do
  let (bs, insn) ← insn.getNext n
  return { insn with immediate2 := insn.immediate2.assign (signedValue bs) (UInt8.ofNat n) }

/-- Two integers of four bytes, for a word of 64 bits. -/
def readQword (insn : InsnState) : Decoding InsnState := do
  let insn ← insn.readImmediate 4
  insn.readImmediate2 4

/-- Sets `got` of both immediates. -/
def setGot (insn : InsnState) : InsnState :=
  { insn with
    immediate := { insn.immediate with got := true }
    immediate2 := { insn.immediate2 with got := true } }

/-- `__get_moffset`. -/
def getMoffset (insn : InsnState) : Decoding InsnState := do
  let insn ←
    if insn.addrBytes = 2 then insn.readImmediate 2
    else if insn.addrBytes = 4 then insn.readImmediate 4
    else if insn.addrBytes = 8 then insn.readQword
    else pure insn
  return insn.setGot

/-- `__get_immv32`. -/
def getImmv32 (insn : InsnState) : Decoding InsnState :=
  if insn.opndBytes = 2 then insn.readImmediate 2
  else if insn.opndBytes = 4 ∨ insn.opndBytes = 8 then insn.readImmediate 4
  else pure insn

/-- `__get_immv`. -/
def getImmv (insn : InsnState) : Decoding InsnState := do
  let insn ←
    if insn.opndBytes = 2 then insn.readImmediate 2
    else if insn.opndBytes = 4 then insn.readImmediate 4
    else if insn.opndBytes = 8 then insn.readQword
    else pure insn
  return insn.setGot

/-- The selector of a far pointer. -/
def readSelector (insn : InsnState) : Decoding InsnState := do
  let (bs, insn) ← insn.getNext 2
  return { insn with immediate2 := insn.immediate2.assign (BitVec.ofNat 32 (leVal bs)) 2 }

/-- `__get_immptr`. -/
def getImmptr (insn : InsnState) : Decoding InsnState :=
  -- ptr16:64 is not exist (no segment)
  if insn.opndBytes = 8 then pure insn
  else do
    let insn ←
      if insn.opndBytes = 2 then insn.readImmediate 2
      else if insn.opndBytes = 4 then insn.readImmediate 4
      else pure insn
    let insn ← insn.readSelector
    return insn.setGot

/-- The switch over the size of the immediate. -/
def readImmediates (insn : InsnState) : Decoding InsnState :=
  let size := immediateSize insn.attr
  if size = immByte then insn.readImmediate 1
  else if size = immWord then insn.readImmediate 2
  else if size = immDword then insn.readImmediate 4
  else if size = immQword then insn.readQword
  else if size = immPtr then insn.getImmptr
  else if size = immVword32 then insn.getImmv32
  else if size = immVword then insn.getImmv
  else pure insn

def immediateBody (insn : InsnState) : Decoding InsnState := do
  let insn ←
    if hasMoffset insn.attr then insn.getMoffset
    else if !hasImmediate insn.attr then pure insn
    else do
      let insn ← insn.readImmediates
      if hasSecondImmediate insn.attr then insn.readImmediate2 1 else pure insn
  return { insn with immediate := { insn.immediate with got := true } }

def lengthBody (insn : InsnState) : Decoding InsnState :=
  pure { insn with length := UInt8.ofNat insn.nextByte }

/-! ## `insn_get_*` -/

/-- The shape of all of them: what has been collected stays, and what comes before
is collected first. -/
def collect (got gotBefore : InsnState → Bool) (before body : InsnState → Decoding InsnState)
    (insn : InsnState) : Decoding InsnState :=
  if got insn then pure insn
  else do
    let insn ← if gotBefore insn then pure insn else before insn
    body insn

def getPrefixes (insn : InsnState) : Decoding InsnState :=
  if insn.prefixes.got then pure insn else insn.prefixesBody

def getOpcode : InsnState → Decoding InsnState :=
  collect (·.opcode.got) (·.prefixes.got) getPrefixes opcodeBody

def getModrm : InsnState → Decoding InsnState :=
  collect (·.modrm.got) (·.opcode.got) getOpcode modrmBody

def getSib : InsnState → Decoding InsnState :=
  collect (·.sib.got) (·.modrm.got) getModrm sibBody

def getDisplacement : InsnState → Decoding InsnState :=
  collect (·.displacement.got) (·.sib.got) getSib displacementBody

def getImmediate : InsnState → Decoding InsnState :=
  collect (·.immediate.got) (·.displacement.got) getDisplacement immediateBody

def getLength : InsnState → Decoding InsnState :=
  collect (·.length != 0) (·.immediate.got) getImmediate lengthBody

/-- `insn_rip_relative`. -/
def getRipRelative (insn : InsnState) : Decoding (Bool × InsnState) :=
  if !insn.x8664 then pure (false, insn)
  else do
    let insn ← if insn.modrm.got then pure insn else insn.getModrm
    return (insn.ripRelative, insn)

end InsnState

end RtBackup
