import RtBackup.InsnFormat
import RtBackup.Relocation

/-!
# What the decoder says about the text that is copied

`symbol_hijack` asks the decoder where an instruction ends, and
`copy_and_fixup_insn` where its operand is and what it holds. For an instruction that
the processor can execute the decoder under `arch/x86` gives the right answers.

Results:
1. `near_attr`, `short_attr`, `jcc_attr`, `avx_attr`: branches in the opcode maps.
2. `isInsn_decodedAt`: the decoded instruction is the one in the text.
-/

namespace RtBackup

open AddressSpace ByteFile InputReader

/-! ## Branches in the opcode maps -/

namespace Inat

/-- One immediate of this size follows. -/
def OneImmediate (size attr : InsnAttr) : Prop :=
  isEscape attr = false ∧ mustVex attr = false ∧ isGroup attr = false ∧ hasMoffset attr = false ∧
    hasImmediate attr = true ∧ hasSecondImmediate attr = false ∧ immediateSize attr = size

instance oneImmediateDecidable (size attr : InsnAttr) : Decidable (OneImmediate size attr) :=
  inferInstanceAs (Decidable (_ ∧ _))

def NoImmediate (attr : InsnAttr) : Prop :=
  isGroup attr = false ∧ hasMoffset attr = false ∧ hasImmediate attr = false

instance noImmediateDecidable (attr : InsnAttr) : Decidable (NoImmediate attr) :=
  inferInstanceAs (Decidable (_ ∧ _))

/-- `call` and `jmp` with 32 bits. -/
theorem near_attr {op : UInt8} (h : op = 0xe8 ∨ op = 0xe9) :
    OneImmediate immVword32 (getOpcodeAttribute op) ∧ isForce64 (getOpcodeAttribute op) = true := by
  rcases h with rfl | rfl
  · decide +kernel
  · decide +kernel

/-- Jumps with 8 bits. -/
theorem short_attr {op : UInt8}
    (h : 0x70 ≤ op ∧ op ≤ 0x7f ∨ 0xe0 ≤ op ∧ op ≤ 0xe3 ∨ op = 0xeb) :
    OneImmediate immByte (getOpcodeAttribute op) := by
  have hmap : ∀ n < 256, 0x70 ≤ n ∧ n ≤ 0x7f ∨ 0xe0 ≤ n ∧ n ≤ 0xe3 ∨ n = 0xeb →
      OneImmediate immByte (getOpcodeAttribute (UInt8.ofNat n)) := by decide +kernel
  have hop := hmap op.toNat op.toNat_lt ?_
  · rwa [UInt8.ofNat_toNat] at hop
  · simp only [UInt8.le_iff_toNat_le, ← UInt8.toNat_inj] at h
    exact h

/-- Conditional jumps with 32 bits. -/
theorem jcc_attr {op2 : UInt8} (h : 0x80 ≤ op2 ∧ op2 ≤ 0x8f) (lastPfx : UInt8) :
    OneImmediate immVword32 (getEscapeAttribute op2 lastPfx (getOpcodeAttribute 0x0f)) ∧
      isForce64 (getEscapeAttribute op2 lastPfx (getOpcodeAttribute 0x0f)) = true := by
  have hmap : ∀ n < 256, 0x80 ≤ n ∧ n ≤ 0x8f →
      (OneImmediate immVword32 (escapeTable1.get (UInt8.ofNat n)) ∧
        isForce64 (escapeTable1.get (UInt8.ofNat n)) = true) ∧
      hasVariant (escapeTable1.get (UInt8.ofNat n)) = false := by decide +kernel
  have hop := hmap op2.toNat op2.toNat_lt ?_
  · rw [UInt8.ofNat_toNat] at hop
    have hid : escapeId (getOpcodeAttribute 0x0f) = 1 := by decide +kernel
    have htable : getEscapeAttribute op2 lastPfx (getOpcodeAttribute 0x0f) =
        escapeTable1.get op2 := by
      have hplain : escapeTables 1 0 = some escapeTable1 := rfl
      rw [getEscapeAttribute, chooseTable, hid, hplain]
      simp only [hop.2, Bool.false_and, Bool.false_eq_true, if_false]
    rw [htable]
    exact hop.1
  · simp only [UInt8.le_iff_toNat_le] at h
    exact h

/-- With a VEX prefix the opcodes of `call` and `jmp` have no immediate. -/
theorem avx_attr {op : UInt8} (h : op = 0xe8 ∨ op = 0xe9) (vexM vexP : UInt8) :
    NoImmediate (getAvxAttribute op vexM vexP) := by
  have hzero : NoImmediate 0 := by decide
  have htables : ∀ n m table, escapeTables n m = some table →
      ∀ e ∈ table, e.1 = 0xe8 ∨ e.1 = 0xe9 → NoImmediate e.2 := by
    intro n m table htable
    unfold escapeTables at htable
    split at htable
    all_goals cases htable
    all_goals decide +kernel
  unfold getAvxAttribute
  split
  · exact hzero
  · split
    · exact hzero
    · next table htable =>
      rw [avxTables_eq] at htable
      rcases table.get_cases op with heq | hmem
      · rwa [heq]
      · refine htables _ _ table htable _ hmem ?_
        rcases h with rfl | rfl
        · exact .inl rfl
        · exact .inr rfl

end Inat

open Inat

/-! ## The instruction that is fixed up -/

/-- What `copy_and_fixup_insn` reads of a field. -/
def FieldState.toField (f : FieldState) : InsnField := ⟨f.value, f.nbytes⟩

/-- What `copy_and_fixup_insn` reads of an instruction, with 64 bits. -/
def InsnState.toInsn (insn : InsnState) : Insn where
  prefixes := insn.prefixes.toField
  rex := insn.rexPrefix.toField
  vex := insn.vexPrefix.toField
  opcode := insn.opcode.toField
  modrm := insn.modrm.toField
  sib := insn.sib.toField
  displacement := insn.displacement.toField
  immediate := insn.immediate.toField
  length := insn.length
  ripRelative := insn.ripRelative

namespace InsnState

open FieldState

section

variable {x8664 : Bool} {p : Parts} {u : Bytes} {s₁ s₂ : InsnState}
  (h : Decodes x8664 p u s₁ s₂)

include h

theorem Decodes.vex_eq_nil_iff : (p.tail.result s₂).toInsn.vex.nbytes = 0 ↔ p.vex = [] := by
  have hvex : (p.tail.result s₂).toInsn.vex.nbytes = UInt8.ofNat p.vex.length := by
    change s₂.vexPrefix.nbytes = _
    rw [h.opcode.fields, h.prefixes.fields]
    rfl
  have hlen := toNat_nbytes (Nat.le_succ_of_le h.prefixes.vex_length)
  rw [hvex, ← UInt8.toNat_inj, hlen]
  exact List.length_eq_zero_iff

theorem Decodes.isAvx_eq (hvex : p.vex = []) : s₁.isAvx = false := by
  rw [Bool.eq_false_iff]
  exact fun havx => h.prefixes.isAvx_iff.mp havx hvex

theorem Decodes.opcode_value : ∃ rest,
    (p.tail.result s₂).toInsn.opcode.value = BitVec.ofNat 32 (leVal (p.op :: (p.escaped ++ rest))) := by
  refine ⟨s₂.opcode.bytes.toList.drop s₂.opcode.nbytes.toNat, ?_⟩
  have hbytes := List.take_append_drop s₂.opcode.nbytes.toNat s₂.opcode.bytes.toList
  rw [← List.cons_append, ← h.opcode.bytes, FieldState.fieldBytes, hbytes]
  rfl

theorem Decodes.opcode1_eq : (p.tail.result s₂).toInsn.opcode1 = p.op := by
  obtain ⟨rest, hval⟩ := h.opcode_value
  refine UInt8.toNat_inj.mp ?_
  change ((p.tail.result s₂).toInsn.opcode.value.setWidth 8).toNat = _
  have hlt := p.op.toNat_lt
  rw [hval, BitVec.toNat_setWidth, BitVec.toNat_ofNat, leVal]
  omega

theorem Decodes.opcode2_eq {op2 : UInt8} {c : Bytes} (hc : p.escaped = op2 :: c) :
    (p.tail.result s₂).toInsn.opcode2 = op2 := by
  obtain ⟨rest, hval⟩ := h.opcode_value
  refine UInt8.toNat_inj.mp ?_
  change (((p.tail.result s₂).toInsn.opcode.value >>> 8).setWidth 8).toNat = _
  have hlt := p.op.toNat_lt
  have hlt2 := op2.toNat_lt
  rw [hval, hc, BitVec.toNat_setWidth, BitVec.toNat_ushiftRight, BitVec.toNat_ofNat, leVal,
    List.cons_append, leVal, Nat.shiftRight_eq_div_pow]
  omega

/-- Nothing is lost of the sizes of the fields. -/
theorem Decodes.offsets (hlegacy : p.legacy.length ≤ 255) :
    (p.tail.result s₂).toInsn.offsetDisplacement =
      (p.legacy ++ (p.rex ++ p.vex) ++ (p.op :: p.escaped) ++ p.tail.modrm ++ p.tail.sib).length ∧
    (p.tail.result s₂).toInsn.offsetImmediate =
      (p.legacy ++ (p.rex ++ p.vex) ++ (p.op :: p.escaped) ++ p.tail.modrm ++ p.tail.sib ++
        p.tail.displacement).length := by
  have hprefixes : (p.tail.result s₂).prefixes.nbytes.toNat = p.legacy.length := by
    change s₂.prefixes.nbytes.toNat = _
    rw [h.opcode.fields, h.prefixes.fields]
    exact UInt8.toNat_ofNat_of_lt' (Nat.lt_succ_of_le hlegacy)
  have hrex : (p.tail.result s₂).rexPrefix.nbytes.toNat = p.rex.length := by
    change s₂.rexPrefix.nbytes.toNat = _
    rw [h.opcode.fields, h.prefixes.fields]
    exact toNat_nbytes (Nat.le_trans h.rex_length (by decide))
  have hvex : (p.tail.result s₂).vexPrefix.nbytes.toNat = p.vex.length := by
    change s₂.vexPrefix.nbytes.toNat = _
    rw [h.opcode.fields, h.prefixes.fields]
    exact toNat_nbytes (Nat.le_succ_of_le h.prefixes.vex_length)
  have hop : (p.tail.result s₂).opcode.nbytes.toNat = (p.op :: p.escaped).length := h.opcode.nbytes
  have hmodrm : (p.tail.result s₂).modrm.nbytes.toNat = p.tail.modrm.length :=
    toNat_nbytes (h.tail.modrm ▸ Nat.le_trans (modrmSize_le _) (by decide))
  have hsib : (p.tail.result s₂).sib.nbytes.toNat = p.tail.sib.length :=
    toNat_nbytes (h.tail.sib ▸ Nat.le_trans (sibSize_le _) (by decide))
  have hdisp : (p.tail.result s₂).displacement.nbytes.toNat = p.tail.displacement.length :=
    toNat_nbytes (h.tail.displacement ▸ displacementSize_le _)
  have hoffset : (p.tail.result s₂).toInsn.offsetDisplacement =
      (p.legacy ++ (p.rex ++ p.vex) ++ (p.op :: p.escaped) ++ p.tail.modrm ++ p.tail.sib).length := by
    simp only [List.length_append, ← hprefixes, ← hrex, ← hvex, ← hop, ← hmodrm, ← hsib]
    simp only [Insn.offsetDisplacement, toInsn, toField, Nat.add_assoc]
  refine ⟨hoffset, ?_⟩
  rw [List.length_append, ← hoffset, ← hdisp]
  rfl

end

/-! ## Operands -/

namespace Tail

variable {p : Tail} {s : InsnState}

theorem attr_of_not_group (h : isGroup s.attr = false) :
    (p.afterDisplacement s).attr = s.attr := by
  rw [attr_afterDisplacement, attrOf, h, Bool.and_false]
  rfl

theorem sizes_of_oneImmediate {size : InsnAttr} (h : OneImmediate size s.attr) :
    (p.afterDisplacement s).immediateSizes = (p.afterDisplacement s).kindSizes := by
  obtain ⟨-, -, hgroup, hmoffset, himm, hsecond, -⟩ := h
  rw [immediateSizes, attr_of_not_group hgroup, hmoffset, himm, hsecond]
  rfl

theorem Fits.immediate_byte (hp : p.Fits s) (h : OneImmediate immByte s.attr) :
    p.immediate.length = 1 := by
  rw [hp.immediate, sizes_of_oneImmediate h, kindSizes, attr_of_not_group h.2.2.1,
    h.2.2.2.2.2.2]
  rfl

/-- The operand size is that of 64 bits, whatever the prefixes. -/
theorem Fits.immediate_rel32 (hp : p.Fits s) (hx : s.x8664 = true)
    (h : OneImmediate immVword32 s.attr ∧ isForce64 s.attr = true) :
    p.immediate.length = 4 := by
  obtain ⟨hone, hforce⟩ := h
  have hattr := attr_of_not_group (p := p) hone.2.2.1
  have hopnd : (p.afterDisplacement s).opndBytes = 8 := by
    change (if s.x8664 && isForce64 (s.attrOf (p.modrm.headD 0)) then 8 else s.opndBytes) = 8
    rw [← attr_afterDisplacement, hattr, hx, hforce]
    rfl
  have hsize : immediateSize (p.afterDisplacement s).attr = immVword32 := by
    rw [hattr]
    exact hone.2.2.2.2.2.2
  rw [hp.immediate, sizes_of_oneImmediate hone, kindSizes_vword32 hsize, hopnd]
  rfl

theorem Fits.immediate_none (hp : p.Fits s) (h : NoImmediate s.attr) :
    p.immediate = [] ∧ p.immediate2 = [] := by
  obtain ⟨hgroup, hmoffset, himm⟩ := h
  have hsizes : (p.afterDisplacement s).immediateSizes = (0, 0) := by
    rw [immediateSizes, attr_of_not_group hgroup, hmoffset, himm]
    rfl
  exact ⟨List.eq_nil_of_length_eq_zero (hp.immediate.trans (congrArg Prod.fst hsizes)),
    List.eq_nil_of_length_eq_zero (hp.immediate2.trans (congrArg Prod.snd hsizes))⟩

/-- A RIP-relative operand has four bytes unless the addresses have 16 bits. -/
theorem Fits.displacement_rip (hp : p.Fits s) (haddr : s.addrBytes ≠ 2)
    (hrip : (p.result s).ripRelative = true) : p.displacement.length = 4 := by
  have hmasks : ∀ n < 256, UInt8.ofNat n &&& 0xc7 = 0x5 →
      modrmMod (UInt8.ofNat n) = 0 ∧ modrmRm (UInt8.ofNat n) = 5 := by decide +kernel
  obtain ⟨hnbytes, hbyte⟩ := (Bool.and_eq_true _ _).mp hrip
  have hne : (p.afterSib s).modrm.nbytes ≠ 0 := bne_iff_ne.mp hnbytes
  have hmasked := hmasks (p.afterSib s).modrm.byteValue.toNat (UInt8.toNat_lt _)
  rw [UInt8.ofNat_toNat] at hmasked
  obtain ⟨hmod, hrm⟩ := hmasked (beq_iff_eq.mp hbyte)
  have haddr' : (p.afterSib s).addrBytes ≠ 2 := haddr
  rw [hp.displacement, displacementSize]
  simp only [if_neg hne, hmod, hrm, if_neg haddr']
  rfl

end Tail

theorem relForm_cases {insn : Insn} {form : RelForm} (h : insn.relForm = some form) :
    form = .memory ∧ insn.ripRelative = true ∨
    insn.vex.nbytes = 0 ∧ (form = .near ∧ insn.CallOrJmp ∨
      form = .jcc ∧ insn.opcode1 = 0x0f ∧ 0x80 ≤ insn.opcode2 ∧ insn.opcode2 ≤ 0x8f ∨
      form = .short ∧ (0x70 ≤ insn.opcode1 ∧ insn.opcode1 ≤ 0x7f ∨
        0xe0 ≤ insn.opcode1 ∧ insn.opcode1 ≤ 0xe3 ∨ insn.opcode1 = 0xeb)) := by
  unfold Insn.relForm at h
  split_ifs at h with hnear hrip hvex hjcc hshort
  · cases h
    exact .inr ⟨hnear.1, .inl ⟨rfl, hnear.2⟩⟩
  · cases h
    exact .inl ⟨rfl, hrip⟩
  · cases h
    exact .inr ⟨not_not.mp hvex, .inr (.inl ⟨rfl, hjcc⟩)⟩
  · cases h
    exact .inr ⟨not_not.mp hvex, .inr (.inr ⟨rfl, hshort⟩)⟩

section

variable {p : Parts} {u : Bytes} {s₁ s₂ : InsnState} (h : Decodes true p u s₁ s₂)

include h

theorem Decodes.x8664_eq : s₂.x8664 = true :=
  (h.opcode.collected h.prefixes.collected).x8664_eq

/-- The conditional jumps are found behind one escape. -/
theorem Decodes.jcc_eq (hvex : p.vex = []) (hop : p.op = 0x0f)
    (h2 : 0x80 ≤ (p.tail.result s₂).toInsn.opcode2 ∧ (p.tail.result s₂).toInsn.opcode2 ≤ 0x8f) :
    OneImmediate immVword32 s₂.attr ∧ isForce64 s₂.attr = true := by
  have havx := h.isAvx_eq hvex
  have hescape : isEscape (getOpcodeAttribute 0x0f) = true := by decide +kernel
  have hnot := h.opcode.not_escape havx
  cases hc : p.escaped with
  | nil =>
    rw [hc, hop, escapedAttr, List.foldl_nil, hescape] at hnot
    cases hnot
  | cons op2 c =>
    rw [h.opcode2_eq hc] at h2
    have hattr := jcc_attr h2 s₁.lastPrefix
    -- it is no escape itself
    have hnil : c = [] := by
      by_contra hne
      have hstart : [op2] <+: p.escaped := hc ▸ ⟨c, rfl⟩
      have hproper : [op2] ≠ p.escaped := fun heq => hne (List.cons.inj (heq.trans hc)).2.symm
      have hfirst := h.opcode.escapes havx [op2] hstart hproper
      rw [hop, escapedAttr, List.foldl_cons, List.foldl_nil] at hfirst
      exact Bool.false_ne_true (hattr.1.1.symm.trans hfirst)
    have hfound : s₂.attr = getEscapeAttribute op2 s₁.lastPrefix (getOpcodeAttribute 0x0f) := by
      have heq : s₁.opcodeAttr 0x0f [op2] =
          if mustVex (getEscapeAttribute op2 s₁.lastPrefix (getOpcodeAttribute 0x0f)) then 0
          else getEscapeAttribute op2 s₁.lastPrefix (getOpcodeAttribute 0x0f) := by
        rw [opcodeAttr, havx]
        rfl
      rw [h.opcode.fields, hop, hc, hnil, heq, hattr.1.2.1]
      rfl
    rwa [hfound]

/-- The operand of a branch is the whole immediate. -/
theorem Decodes.immediate_length {form : RelForm}
    (hform : (p.tail.result s₂).toInsn.relForm = some form) (hne : form ≠ .memory) :
    p.tail.immediate.length = form.nbytes := by
  rcases relForm_cases hform with ⟨hmemory, -⟩ | ⟨hvex, hcases⟩
  · exact absurd hmemory hne
  have havx := h.isAvx_eq (h.vex_eq_nil_iff.mp hvex)
  rw [Insn.CallOrJmp, h.opcode1_eq] at hcases
  rcases hcases with ⟨rfl, hop⟩ | ⟨rfl, hop, hop2⟩ | ⟨rfl, hop⟩
  · have hattr := near_attr hop
    rw [← h.opcode.attr_eq havx hattr.1.1 hattr.1.2.1] at hattr
    exact h.tail.immediate_rel32 h.x8664_eq hattr
  · exact h.tail.immediate_rel32 h.x8664_eq (h.jcc_eq (h.vex_eq_nil_iff.mp hvex) hop hop2)
  · have hattr := short_attr hop
    rw [← h.opcode.attr_eq havx hattr.1 hattr.2.1] at hattr
    exact h.tail.immediate_byte hattr

theorem Decodes.displacement_length
    (hform : (p.tail.result s₂).toInsn.relForm = some .memory) :
    p.tail.displacement.length = 4 := by
  have hrip : (p.tail.result s₂).ripRelative = true := by
    rcases relForm_cases hform with ⟨-, hrip⟩ | ⟨-, ⟨heq, -⟩ | ⟨heq, -⟩ | ⟨heq, -⟩⟩
    · exact hrip
    · cases heq
    · cases heq
    · cases heq
  refine h.tail.displacement_rip ?_ hrip
  rw [h.opcode.fields, h.prefixes.fields]
  simp only [prefixedAddrBytes, if_true]
  split <;> decide

theorem Decodes.no_immediate (hvex : (p.tail.result s₂).toInsn.vex.nbytes ≠ 0)
    (hcall : (p.tail.result s₂).toInsn.CallOrJmp) :
    p.tail.immediate = [] ∧ p.tail.immediate2 = [] := by
  have havx := h.prefixes.isAvx_iff.mpr (mt h.vex_eq_nil_iff.mpr hvex)
  have hop : p.op = 0xe8 ∨ p.op = 0xe9 := h.opcode1_eq ▸ hcall
  refine h.tail.immediate_none ?_
  rw [h.opcode.fields, opcodeAttr, if_pos havx]
  simp only
  split
  · exact avx_attr hop s₁.vexMBits s₁.vexPBits
  · decide

end

theorem signExtend_signedValue {bs : Bytes} (hlen : bs.length ≤ 4) :
    (signedValue bs).signExtend 64 = (BitVec.ofNat (8 * bs.length) (leVal bs)).signExtend 64 := by
  refine BitVec.eq_of_toInt_eq ?_
  rw [signedValue, BitVec.toInt_signExtend_of_le (by decide), BitVec.toInt_signExtend_of_le (by omega),
    BitVec.toInt_signExtend_of_le (by omega)]

theorem bytesAt_of_append {image : Image 64} {addr : BitVec 64} {n : Nat} {a b c : Bytes}
    (h : bytesAt image addr n = a ++ b ++ c) :
    bytesAt image (addr + BitVec.ofNat 64 a.length) b.length = b := by
  refine List.ext_getElem (bytesAt_length ..) fun i hi hi' => ?_
  have hsame : (bytesAt image addr n)[a.length + i]? = b[i]? := by
    rw [h, List.append_assoc, List.getElem?_append_right (Nat.le_add_right _ _),
      Nat.add_sub_cancel_left, List.getElem?_append_left hi']
  have hn : a.length + i < n := by
    have hlen := congrArg List.length h
    simp only [bytesAt_length, List.length_append] at hlen
    omega
  rw [bytesAt, List.getElem?_map, List.getElem?_range hn, List.getElem?_eq_getElem hi'] at hsame
  simp only [bytesAt, List.getElem_map, List.getElem_range, add_ofNat_add]
  exact Option.some.inj hsame

/-- An operand is where the bytes of its field are. -/
theorem operand_of_bytes {text : Image 64} {kaddr : BitVec 64} {n : Nat} {insn : Insn}
    {form : RelForm} {a b c : Bytes} (hbytes : bytesAt text kaddr n = a ++ b ++ c)
    (hlength : insn.length.toNat = n) (hoffset : insn.operandOffset form = a.length)
    (hlen : b.length = form.nbytes) (hval : insn.operandValue form = signedValue b) :
    insn.operandOffset form + form.nbytes ≤ insn.length.toNat ∧
      displacementAt text kaddr insn form = (insn.operandValue form).signExtend 64 := by
  constructor
  · have htotal := congrArg List.length hbytes
    simp only [bytesAt_length, List.length_append] at htotal
    omega
  · have hsmall : b.length ≤ 4 := by
      rw [hlen]
      cases form <;> decide
    rw [hval, signExtend_signedValue hsmall, displacementAt, hoffset, ← hlen,
      bytesAt_of_append hbytes]

end InsnState

/-- What the decoder makes of an instruction of at most fifteen bytes is what the
processor sees there: the length, and place and value of each operand that counts
from the end of the instruction. -/
theorem isInsn_decodedAt {text : Image 64} {kaddr : BitVec 64} {n : Nat} {s : InsnState}
    (h : InsnState.IsInsn true (bytesAt text kaddr n) s) (hn : n ≤ 15) :
    DecodedAt text kaddr s.toInsn := by
  obtain ⟨p, u, s₁, s₂, hbytes, hd, rfl⟩ := h.decodes
  have htotal : p.bytes.length = n := by rw [← hbytes, bytesAt_length]
  have hparts : p.bytes.length = p.legacy.length + (p.rex.length + p.vex.length) +
      ((p.op :: p.escaped).length + p.tail.bytes.length) := by
    simp only [InsnState.Parts.bytes, List.length_append]
  have hlength : (p.tail.result s₂).toInsn.length.toNat = n := by
    have hlen : (p.tail.result s₂).length = UInt8.ofNat p.bytes.length := by
      rw [← hd.nextByte_eq]
      rfl
    change (p.tail.result s₂).length.toNat = n
    rw [hlen, htotal]
    exact UInt8.toNat_ofNat_of_lt' (Nat.lt_of_le_of_lt hn (by decide))
  obtain ⟨hdisp, himm⟩ := hd.offsets (by omega)
  -- the bytes in front of the operand, the operand and what is left
  have hmemory : bytesAt text kaddr n = p.legacy ++ (p.rex ++ p.vex) ++ (p.op :: p.escaped) ++
      p.tail.modrm ++ p.tail.sib ++ p.tail.displacement ++
        (p.tail.immediate ++ p.tail.immediate2) := by
    rw [hbytes]
    simp only [InsnState.Parts.bytes, InsnState.Tail.bytes, List.append_assoc]
  have hbranch : bytesAt text kaddr n = p.legacy ++ (p.rex ++ p.vex) ++ (p.op :: p.escaped) ++
      p.tail.modrm ++ p.tail.sib ++ p.tail.displacement ++ p.tail.immediate ++
        p.tail.immediate2 := by
    rw [hmemory, List.append_assoc _ p.tail.immediate]
  have hoperand : ∀ form, (p.tail.result s₂).toInsn.relForm = some form →
      (p.tail.result s₂).toInsn.operandOffset form + form.nbytes ≤
          (p.tail.result s₂).toInsn.length.toNat ∧
        displacementAt text kaddr (p.tail.result s₂).toInsn form =
          ((p.tail.result s₂).toInsn.operandValue form).signExtend 64 := by
    intro form hform
    have hvalue := hd.tail.immediate_eq.2
    cases form with
    | near =>
      exact InsnState.operand_of_bytes hbranch hlength himm
        (hd.immediate_length hform (by decide)) hvalue
    | memory =>
      exact InsnState.operand_of_bytes hmemory hlength hdisp (hd.displacement_length hform)
        hd.tail.displacement_eq.2
    | jcc =>
      exact InsnState.operand_of_bytes hbranch hlength himm
        (hd.immediate_length hform (by decide)) hvalue
    | short =>
      exact InsnState.operand_of_bytes hbranch hlength himm
        (hd.immediate_length hform (by decide)) hvalue
  exact {
    length_le := hlength ▸ hn
    fields_le := by
      have hle := congrArg List.length hmemory
      rw [bytesAt_length, List.length_append] at hle
      rw [hlength, himm]
      omega
    operand_le := fun form hform => (hoperand form hform).1
    operand_eq := fun form hform => (hoperand form hform).2
    no_immediate := fun hvex hcall => by
      obtain ⟨hfirst, hsecond⟩ := hd.no_immediate hvex hcall
      refine ⟨?_, ?_⟩
      · change (p.tail.result s₂).immediate.value = 0
        rw [hd.tail.immediate_eq.2, hfirst]
        rfl
      · have hle := congrArg List.length hmemory
        rw [bytesAt_length, List.length_append, hfirst, hsecond] at hle
        rw [hlength, himm, hle]
        rfl }

/-- A text that begins with a `call`. -/
def callText : Image 64 := fun a => [0xe8, 1, 2, 3, 4].getD a.toNat 0xc3

theorem isInsn_decodedAt_call : ∃ s, InsnState.IsInsn true (bytesAt callText 0 5) s ∧
    DecodedAt callText 0 s.toInsn := by
  have hrest : (InsnState.getLength (insnInit true) (bytesAt callText 0 5)).map Prod.snd =
      some [] := by decide +kernel
  obtain ⟨⟨s, r⟩, hrun, rfl⟩ := Option.map_eq_some_iff.mp hrest
  exact ⟨s, hrun, isInsn_decodedAt hrun (by decide)⟩

end RtBackup
