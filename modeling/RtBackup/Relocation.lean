import RtBackup.Unload
import Mathlib.Data.BitVec
import Mathlib.Tactic.Abel

/-!
# The copy of a hooked function (`hijacks.c`)

The hooks call the original function through the copy that `symbol_hijack` makes
of it. An operand that counts from the end of its instruction means another
address there, unless `copy_and_fixup_insn` changes it. It does so for `call` and
`jmp` with 32 bits and for RIP-relative memory operands. Conditional jumps and
short jumps are copied as they are, and the opcodes of `call` and `jmp` are
looked for behind a VEX prefix too, where they belong to other instructions.

The words have 64 bits, as with `CONFIG_X86_64`.

Results:
1. `copyInsns_insn`: after the copy loop each instruction of the copy has the
   bytes that `copy_and_fixup_insn` gave it.
2. `insnRelocated_iff`: when such an instruction behaves like the original one.
3. `copy_behaves_iff`: the copy behaves like the function exactly if no operand
   that is missed leads out of it to a place in reach of the copy.
4. `cold_branch_misdirected`: a function with a conditional jump out of it.
-/

namespace RtBackup

open AddressSpace ByteFile

/-! ## Operands that count from the end of the instruction -/

inductive RelForm where
  /-- `call` and `jmp` with 32 bits. -/
  | near
  /-- A RIP-relative memory operand. -/
  | memory
  /-- A conditional jump with 32 bits. -/
  | jcc
  /-- A jump with 8 bits, conditional or not. -/
  | short
deriving DecidableEq

/-- The bytes that the displacement takes. -/
def RelForm.nbytes : RelForm → Nat
  | .near | .memory | .jcc => 4
  | .short => 1

namespace Insn

/-- `opcode.bytes[1]`. -/
def opcode2 (insn : Insn) : UInt8 := ⟨(insn.opcode.value >>> 8).setWidth 8⟩

/-- The first test of `copy_and_fixup_insn`. -/
def CallOrJmp (insn : Insn) : Prop := insn.opcode1 = opCallRel32 ∨ insn.opcode1 = opJmpRel32

instance (insn : Insn) : Decidable insn.CallOrJmp := inferInstanceAs (Decidable (_ ∨ _))

/-- The operand of an instruction of the processor that counts from its end. A VEX
prefix gives opcodes another meaning, and no jump has one. -/
def relForm (insn : Insn) : Option RelForm :=
  if insn.vex.nbytes = 0 ∧ insn.CallOrJmp then some .near
  else if insn.ripRelative then some .memory
  else if insn.vex.nbytes ≠ 0 then none
  else if insn.opcode1 = 0x0f ∧ 0x80 ≤ insn.opcode2 ∧ insn.opcode2 ≤ 0x8f then some .jcc
  else if 0x70 ≤ insn.opcode1 ∧ insn.opcode1 ≤ 0x7f ∨ 0xe0 ≤ insn.opcode1 ∧ insn.opcode1 ≤ 0xe3 ∨
      insn.opcode1 = 0xeb then
    some .short
  else none

def operandOffset (insn : Insn) : RelForm → Nat
  | .near | .jcc | .short => insn.offsetImmediate
  | .memory => insn.offsetDisplacement

def operandValue (insn : Insn) : RelForm → BitVec 32
  | .near | .jcc | .short => insn.immediate.value
  | .memory => insn.displacement.value

/-- The operand is one that `copy_and_fixup_insn` does not look at. -/
def Misses (insn : Insn) (form : RelForm) : Prop :=
  form = .jcc ∨ form = .short ∨ form = .memory ∧ insn.CallOrJmp

instance (insn : Insn) (form : RelForm) : Decidable (insn.Misses form) :=
  inferInstanceAs (Decidable (_ ∨ _))

end Insn

/-! ## What the processor does -/

/-- What the processor adds to the address behind the instruction at `ip`. -/
def displacementAt (image : Image 64) (ip : BitVec 64) (insn : Insn) (form : RelForm) : BitVec 64 :=
  let bytes := bytesAt image (ip + BitVec.ofNat 64 (insn.operandOffset form)) form.nbytes
  (BitVec.ofNat (8 * form.nbytes) (leVal bytes)).signExtend 64

/-- The address that the operand of the instruction at `ip` resolves to. -/
def targetAt (image : Image 64) (ip : BitVec 64) (insn : Insn) (form : RelForm) : BitVec 64 :=
  ip + BitVec.ofNat 64 insn.length.toNat + displacementAt image ip insn form

/-- A displacement that an operand of this form can hold. -/
def RelForm.Fits (form : RelForm) (displacement : BitVec 64) : Prop :=
  (displacement.setWidth (8 * form.nbytes)).signExtend 64 = displacement

instance RelForm.fitsDecidable (form : RelForm) (d : BitVec 64) : Decidable (form.Fits d) :=
  inferInstanceAs (Decidable (_ = _))

/-- The instruction at `kaddr` is decoded as the processor sees it. -/
structure DecodedAt (text : Image 64) (kaddr : BitVec 64) (insn : Insn) : Prop where
  length_le : insn.length.toNat ≤ 15
  fields_le : insn.offsetImmediate ≤ insn.length.toNat
  operand_le : ∀ form, insn.relForm = some form →
    insn.operandOffset form + form.nbytes ≤ insn.length.toNat
  operand_eq : ∀ form, insn.relForm = some form →
    displacementAt text kaddr insn form = (insn.operandValue form).signExtend 64
  /-- With a VEX prefix these opcodes have no immediate. -/
  no_immediate : insn.vex.nbytes ≠ 0 → insn.CallOrJmp →
    insn.immediate.value = 0 ∧ insn.offsetImmediate = insn.length.toNat

/-- `a` is the address of an instruction that the copy loop reaches from
`origAddr`. -/
inductive Reaches (decode : BitVec 64 → Insn) (endAddr : BitVec 64) :
    BitVec 64 → BitVec 64 → Prop where
  | here {a} : a < endAddr → Reaches decode endAddr a a
  | there {origAddr a} : origAddr < endAddr →
      Reaches decode endAddr (origAddr + BitVec.ofNat 64 (decode origAddr).length.toNat) a →
      Reaches decode endAddr origAddr a

namespace Kernsym

variable (sym : Kernsym 64)

/-- The address of the copy of the byte at `a`. -/
def copyOf (a : BitVec 64) : BitVec 64 := sym.newAddr + (a - sym.addr)

/-- The bytes of the function. -/
def body : Set (BitVec 64) := block sym.addr sym.size.toNat

instance (a : BitVec 64) : Decidable (a ∈ sym.body) :=
  inferInstanceAs (Decidable ((a - sym.addr).toNat < sym.size.toNat))

/-- Where a jump to `target` should lead in the copy. -/
def relocated (target : BitVec 64) : BitVec 64 :=
  if target ∈ sym.body then sym.copyOf target else target

end Kernsym

/-- The displacement that the copy of the instruction at `kaddr` needs. -/
def neededDisplacement (text : Image 64) (sym : Kernsym 64) (kaddr : BitVec 64) (insn : Insn)
    (form : RelForm) : BitVec 64 :=
  sym.relocated (targetAt text kaddr insn form) -
    (sym.copyOf kaddr + BitVec.ofNat 64 insn.length.toNat)

/-- The copy of one instruction behaves like the instruction: its operand resolves
to the same place or to the copy of it, and its other bytes are the same. -/
structure InsnRelocated (text copies : Image 64) (sym : Kernsym 64) (kaddr : BitVec 64)
    (insn : Insn) : Prop where
  target_eq : ∀ form, insn.relForm = some form →
    form.Fits (neededDisplacement text sym kaddr insn form) →
    targetAt copies (sym.copyOf kaddr) insn form = sym.relocated (targetAt text kaddr insn form)
  bytes_eq : ∀ i < insn.length.toNat,
    (∀ form, insn.relForm = some form →
      i < insn.operandOffset form ∨ insn.operandOffset form + form.nbytes ≤ i) →
    copies (sym.copyOf kaddr + BitVec.ofNat 64 i) = text (kaddr + BitVec.ofNat 64 i)

/-! ## The copy loop -/

theorem sub_eq_ofNat {a b : BitVec 64} (h : b.toNat ≤ a.toNat) :
    a - b = BitVec.ofNat 64 (a.toNat - b.toNat) := by
  refine BitVec.eq_of_toNat_eq ?_
  rw [BitVec.toNat_sub_of_le (BitVec.le_def.mpr h), BitVec.toNat_ofNat, Nat.mod_eq_of_lt (by omega)]

theorem DecodedAt.offset_le {text : Image 64} {kaddr : BitVec 64} {insn : Insn}
    (h : DecodedAt text kaddr insn) : insn.offsetDisplacement ≤ insn.length.toNat :=
  Nat.le_trans (Nat.le_add_right _ _) h.fields_le

/-- An instruction and the four bytes behind it are all that is written. -/
theorem copyAndFixupInsn_frame {text copies : Image 64} {kaddr dest b : BitVec 64} {insn : Insn}
    {sym : Kernsym 64} (h : DecodedAt text kaddr insn)
    (hb : b ∉ block dest (insn.length.toNat + 4)) :
    copyAndFixupInsn text kaddr insn dest sym copies b = copies b := by
  have hplain : overwrite copies dest (bytesAt text kaddr insn.length.toNat) b = copies b := by
    refine overwrite_of_not_mem fun hmem => hb ?_
    rw [bytesAt_length] at hmem
    exact block_mono dest (Nat.le_add_right _ _) hmem
  have hfixed : ∀ k ≤ insn.length.toNat, ∀ v : BitVec 32,
      overwrite (overwrite copies dest (bytesAt text kaddr insn.length.toNat))
        (dest + BitVec.ofNat 64 k) (u32Bytes v) b = copies b := by
    intro k hk v
    rw [overwrite_of_not_mem, hplain]
    rw [u32Bytes_length]
    exact fun hmem => hb (block_mono dest (by omega) (block_add_subset dest k 4 hmem))
  unfold copyAndFixupInsn
  simp only
  split
  · split
    · exact hplain
    · exact hfixed _ h.fields_le _
  · split
    · split
      · exact hplain
      · exact hfixed _ h.offset_le _
    · exact hplain

/-- The loop changes the bytes at the copies of its instructions only, and later
instructions leave the earlier ones alone. -/
theorem copyInsns_insn {decode : BitVec 64 → Insn} {text : Image 64} {sym : Kernsym 64}
    {endAddr : BitVec 64} {fuel : Nat} {origAddr destAddr d : BitVec 64} {copies copies' : Image 64}
    (h : copyInsns decode text sym endAddr fuel origAddr destAddr copies = some (some d, copies'))
    (hdecoded : ∀ a, Reaches decode endAddr origAddr a → DecodedAt text a (decode a))
    (hroom : endAddr.toNat + 18 ≤ origAddr.toNat + 2 ^ 64) :
    (∀ b, (∀ a, Reaches decode endAddr origAddr a →
      b ∉ block (destAddr + (a - origAddr)) ((decode a).length.toNat + 4)) → copies' b = copies b) ∧
    ∀ a, Reaches decode endAddr origAddr a → origAddr.toNat ≤ a.toNat ∧ a.toNat < endAddr.toNat ∧
      ∃ before, ∀ i < (decode a).length.toNat,
        copies' (destAddr + (a - origAddr) + BitVec.ofNat 64 i) =
          copyAndFixupInsn text a (decode a) (destAddr + (a - origAddr)) sym before
            (destAddr + (a - origAddr) + BitVec.ofNat 64 i) := by
  induction fuel generalizing origAddr destAddr copies with
  | zero => cases h
  | succ fuel ih =>
    rcases copyInsns_succ_cases h with ⟨hge, -, rfl⟩ | ⟨-, -, hnone, -⟩ | ⟨hlt, -, hwrap, h⟩
    · have hnone : ∀ a, ¬Reaches decode endAddr origAddr a := by
        intro a ha
        cases ha with
        | here hlt => exact hge hlt
        | there hlt => exact hge hlt
      exact ⟨fun _ _ => rfl, fun a ha => absurd ha (hnone a)⟩
    · cases hnone
    · have hnext := toNat_add_of_not_lt (Nat.lt_trans (UInt8.toNat_lt _) (by decide)) hwrap
      have hhere := hdecoded origAddr (.here hlt)
      have hlen := hhere.length_le
      have horig : origAddr.toNat < endAddr.toNat := BitVec.lt_def.mp hlt
      obtain ⟨hframe, hinsn⟩ := ih h (fun a ha => hdecoded a (.there hlt ha)) (by omega)
      -- the copy of `a` is found from the next instruction as well
      have hdest : ∀ a, destAddr + BitVec.ofNat 64 (decode origAddr).length.toNat +
          (a - (origAddr + BitVec.ofNat 64 (decode origAddr).length.toNat)) =
            destAddr + (a - origAddr) := fun a => by abel
      simp only [hdest] at hframe hinsn
      refine ⟨fun b hb => ?_, fun a ha => ?_⟩
      · rw [hframe b fun a ha => hb a (.there hlt ha), copyAndFixupInsn_frame hhere]
        have := hb origAddr (.here hlt)
        rwa [BitVec.sub_self, BitVec.add_zero] at this
      · cases ha with
        | here =>
          refine ⟨Nat.le_refl _, horig, copies, fun i hi => ?_⟩
          rw [BitVec.sub_self, BitVec.add_zero]
          refine hframe _ fun a ha => ?_
          obtain ⟨hle, hend, -⟩ := hinsn a ha
          have hlen' := (hdecoded a (.there hlt ha)).length_le
          rw [sub_eq_ofNat (by omega)]
          exact add_not_mem_block (.inl (by omega))
        | there _ ha =>
          obtain ⟨hle, hend, hbytes⟩ := hinsn a ha
          exact ⟨by omega, hend, hbytes⟩

/-! ## One instruction -/

theorem relForm_near {insn : Insn} (h : insn.relForm = some .near) :
    insn.vex.nbytes = 0 ∧ insn.CallOrJmp := by
  by_contra hnear
  rw [Insn.relForm, if_neg hnear] at h
  split_ifs at h <;> cases h

theorem relForm_memory {insn : Insn} (h : insn.relForm = some .memory) :
    insn.ripRelative = true := by
  by_contra hrip
  rw [Insn.relForm, if_neg hrip] at h
  split_ifs at h <;> cases h

section

variable {text before copies : Image 64} {kaddr dest : BitVec 64} {insn : Insn} {sym : Kernsym 64}
  (h : DecodedAt text kaddr insn)

include h

theorem DecodedAt.codeAddr_eq {form : RelForm} (hform : insn.relForm = some form) :
    codeAddrFromOffset kaddr insn.length.toNat (insn.operandValue form) =
      targetAt text kaddr insn form := by
  rw [targetAt, h.operand_eq form hform]
  rfl

theorem copied_byte {i : Nat} (hi : i < insn.length.toNat) :
    overwrite before dest (bytesAt text kaddr insn.length.toNat) (dest + BitVec.ofNat 64 i) =
      text (kaddr + BitVec.ofNat 64 i) := by
  have hlen := h.length_le
  rw [overwrite_add (by rwa [bytesAt_length]) (by rw [bytesAt_length]; omega)]
  simp only [bytesAt, List.getElem_map, List.getElem_range]

/-- Nothing but the copying happens to an instruction whose operand is missed or
leads into the function. -/
theorem copyAndFixupInsn_keeps
    (hkeep : ∀ form, insn.relForm = some form →
      insn.Misses form ∨ sym.contains (targetAt text kaddr insn form) = true)
    {i : Nat} (hi : i < insn.length.toNat) :
    copyAndFixupInsn text kaddr insn dest sym before (dest + BitVec.ofNat 64 i) =
      text (kaddr + BitVec.ofNat 64 i) := by
  have hlen := h.length_le
  unfold copyAndFixupInsn
  simp only
  split
  · next hcall =>
    split
    · exact copied_byte h hi
    · next hout =>
      by_cases hvex : insn.vex.nbytes = 0
      · have hform : insn.relForm = some .near := if_pos ⟨hvex, hcall⟩
        rcases hkeep _ hform with hmiss | hin
        · exact absurd hmiss (by simp [Insn.Misses])
        · exact absurd (h.codeAddr_eq hform ▸ hin) hout
      · -- the four bytes behind the instruction are overwritten
        rw [overwrite_of_not_mem, copied_byte h hi]
        rw [u32Bytes_length, (h.no_immediate hvex hcall).2]
        exact add_not_mem_block (.inl (by omega))
  · next hcall =>
    split
    · next hrip =>
      split
      · exact copied_byte h hi
      · next hout =>
        have hform : insn.relForm = some .memory := by
          rw [Insn.relForm, if_neg fun hnear => hcall hnear.2, if_pos hrip.2]
        rcases hkeep _ hform with hmiss | hin
        · rcases hmiss with hjcc | hshort | ⟨-, hcall'⟩
          · exact absurd hjcc nofun
          · exact absurd hshort nofun
          · exact absurd hcall' hcall
        · exact absurd (h.codeAddr_eq hform ▸ hin) hout
    · exact copied_byte h hi

/-- The operand of an instruction that leads out of the function is filled in. -/
theorem copyAndFixupInsn_fixes {form : RelForm} (hform : insn.relForm = some form)
    (hmiss : ¬insn.Misses form) (hout : ¬sym.contains (targetAt text kaddr insn form) = true) :
    copyAndFixupInsn text kaddr insn dest sym before =
      overwrite (overwrite before dest (bytesAt text kaddr insn.length.toNat))
        (dest + BitVec.ofNat 64 (insn.operandOffset form))
        (u32Bytes (codeOffsetFromAddr dest insn.length.toNat (targetAt text kaddr insn form))) := by
  rw [← h.codeAddr_eq hform] at hout ⊢
  unfold copyAndFixupInsn
  cases form with
  | near =>
    have hcall : insn.opcode1 = opCallRel32 ∨ insn.opcode1 = opJmpRel32 := (relForm_near hform).2
    simp only
    rw [if_pos hcall]
    exact if_neg hout
  | memory =>
    have hcall : ¬(insn.opcode1 = opCallRel32 ∨ insn.opcode1 = opJmpRel32) :=
      fun hcall => hmiss (.inr (.inr ⟨rfl, hcall⟩))
    simp only
    rw [if_neg hcall, if_pos ⟨trivial, relForm_memory hform⟩]
    exact if_neg hout
  | jcc => exact absurd (.inl rfl) hmiss
  | short => exact absurd (.inr (.inl rfl)) hmiss

end

/-- No operand that is missed leads out of the function to a place that the copy
could reach. -/
def Harmless (text : Image 64) (sym : Kernsym 64) (kaddr : BitVec 64) (insn : Insn) : Prop :=
  ∀ form, insn.relForm = some form → insn.Misses form →
    targetAt text kaddr insn form ∈ sym.body ∨
      ¬form.Fits (neededDisplacement text sym kaddr insn form)

/-- A displacement that was computed for a target is read as the target exactly if it
fits. -/
theorem targetAt_eq_iff_of_stored {image : Image 64} {ip target : BitVec 64} {insn : Insn}
    {form : RelForm} (hfour : form.nbytes = 4)
    (hstored : bytesAt image (ip + BitVec.ofNat 64 (insn.operandOffset form)) 4 =
      u32Bytes (codeOffsetFromAddr ip insn.length.toNat target)) :
    targetAt image ip insn form = target ↔
      form.Fits (target - (ip + BitVec.ofNat 64 insn.length.toNat)) := by
  have hval : leVal (u32Bytes (codeOffsetFromAddr ip insn.length.toNat target)) =
      (codeOffsetFromAddr ip insn.length.toNat target).toNat := by
    rw [u32Bytes, leVal_leBytes]
    exact Nat.mod_eq_of_lt (BitVec.isLt _)
  have hdisp : displacementAt image ip insn form =
      ((target - (ip + BitVec.ofNat 64 insn.length.toNat)).setWidth
        (8 * form.nbytes)).signExtend 64 := by
    unfold displacementAt
    generalize form.nbytes = n at hfour ⊢
    subst hfour
    simp only [hstored, hval]
    rw [BitVec.ofNat_toNat, BitVec.setWidth_eq]
    rfl
  rw [targetAt, hdisp, RelForm.Fits, BitVec.eq_sub_iff_add_eq, BitVec.add_comm]

section

variable {text before copies : Image 64} {kaddr dest : BitVec 64} {insn : Insn}
  {sym func : Kernsym 64} (h : DecodedAt text kaddr insn)

include h

section

variable (hbytes : ∀ i < insn.length.toNat, copies (dest + BitVec.ofNat 64 i) =
  copyAndFixupInsn text kaddr insn dest func before (dest + BitVec.ofNat 64 i))

include hbytes

/-- The operand of the copy has the bytes that the fix-up left. -/
theorem operandBytes_copy {form : RelForm} (hform : insn.relForm = some form) :
    bytesAt copies (dest + BitVec.ofNat 64 (insn.operandOffset form)) form.nbytes =
      bytesAt (copyAndFixupInsn text kaddr insn dest func before)
        (dest + BitVec.ofNat 64 (insn.operandOffset form)) form.nbytes := by
  have hle := h.operand_le form hform
  refine bytesAt_congr fun i hi => ?_
  rw [add_ofNat_add]
  exact hbytes _ (by omega)

/-- An operand that stays as it is leads as far from the copy as from the original. -/
theorem targetAt_of_kept {form : RelForm} (hform : insn.relForm = some form)
    (hkeep : insn.Misses form ∨ func.contains (targetAt text kaddr insn form) = true) :
    targetAt copies dest insn form = dest + (targetAt text kaddr insn form - kaddr) := by
  have hle := h.operand_le form hform
  have hsame : displacementAt copies dest insn form = displacementAt text kaddr insn form := by
    unfold displacementAt
    rw [operandBytes_copy h hbytes hform, bytesAt_congr fun i hi => ?_]
    rw [add_ofNat_add, add_ofNat_add]
    refine copyAndFixupInsn_keeps h (fun form' hform' => ?_) (by omega)
    obtain rfl : form = form' := Option.some.inj (hform.symm.trans hform')
    exact hkeep
  rw [targetAt, targetAt, hsame]
  abel

/-- An operand that is filled in leads to its target exactly if it fits. -/
theorem targetAt_eq_iff_of_fixed {form : RelForm} (hform : insn.relForm = some form)
    (hmiss : ¬insn.Misses form) (hout : ¬func.contains (targetAt text kaddr insn form) = true) :
    targetAt copies dest insn form = targetAt text kaddr insn form ↔
      form.Fits (targetAt text kaddr insn form -
        (dest + BitVec.ofNat 64 insn.length.toNat)) := by
  have hfour : form.nbytes = 4 := by
    cases form with
    | near | memory => rfl
    | jcc => exact absurd (.inl rfl) hmiss
    | short => exact absurd (.inr (.inl rfl)) hmiss
  refine targetAt_eq_iff_of_stored hfour ?_
  rw [← hfour, operandBytes_copy h hbytes hform, copyAndFixupInsn_fixes h hform hmiss hout, hfour]
  have hread := @bytesAt_overwrite 64
    (overwrite before dest (bytesAt text kaddr insn.length.toNat))
    (dest + BitVec.ofNat 64 (insn.operandOffset form))
    (u32Bytes (codeOffsetFromAddr dest insn.length.toNat (targetAt text kaddr insn form)))
  rw [u32Bytes_length] at hread
  exact hread (by decide)

end

variable (hbody : ∀ t, func.contains t = true ↔ t ∈ sym.body)
  (hbytes : ∀ i < insn.length.toNat,
    copies (sym.copyOf kaddr + BitVec.ofNat 64 i) =
      copyAndFixupInsn text kaddr insn (sym.copyOf kaddr) func before
        (sym.copyOf kaddr + BitVec.ofNat 64 i))

include hbytes hbody

/-- An operand that stays as it is leads to the copy of its target. -/
theorem copyOf_of_kept {form : RelForm} (hform : insn.relForm = some form)
    (hkeep : insn.Misses form ∨ targetAt text kaddr insn form ∈ sym.body) :
    targetAt copies (sym.copyOf kaddr) insn form = sym.copyOf (targetAt text kaddr insn form) := by
  rw [targetAt_of_kept h hbytes hform (hkeep.imp_right (hbody _).mpr)]
  unfold Kernsym.copyOf
  abel

theorem insnRelocated_iff (hne : sym.newAddr ≠ sym.addr) :
    InsnRelocated text copies sym kaddr insn ↔ Harmless text sym kaddr insn := by
  have hlen := h.length_le
  constructor
  · intro hok form hform hmiss
    by_contra hbad
    obtain ⟨hout, hfits⟩ := not_or.mp hbad
    have hcopy := hok.target_eq form hform (not_not.mp hfits)
    rw [copyOf_of_kept h hbody hbytes hform (.inl hmiss), Kernsym.relocated, if_neg hout,
      Kernsym.copyOf] at hcopy
    -- the target would be its own copy
    refine hne ?_
    calc
      sym.newAddr = sym.newAddr + (targetAt text kaddr insn form - sym.addr) -
          (targetAt text kaddr insn form - sym.addr) := by abel
      _ = sym.addr := by
        rw [hcopy]
        abel
  · intro hharmless
    refine ⟨fun form hform hfits => ?_, fun i hi hrest => ?_⟩
    · by_cases hin : targetAt text kaddr insn form ∈ sym.body
      · rw [Kernsym.relocated, if_pos hin]
        exact copyOf_of_kept h hbody hbytes hform (.inr hin)
      · have hmiss : ¬insn.Misses form := fun hmiss =>
          (hharmless form hform hmiss).elim hin fun hnot => hnot hfits
        rw [neededDisplacement, Kernsym.relocated, if_neg hin] at hfits
        rw [Kernsym.relocated, if_neg hin]
        exact (targetAt_eq_iff_of_fixed h hbytes hform hmiss (mt (hbody _).mp hin)).mpr hfits
    · rw [hbytes i hi]
      by_cases hkeep : ∀ form, insn.relForm = some form →
          insn.Misses form ∨ func.contains (targetAt text kaddr insn form) = true
      · exact copyAndFixupInsn_keeps h hkeep hi
      · push Not at hkeep
        obtain ⟨form, hform, hmiss, hout⟩ := hkeep
        have hle := h.operand_le form hform
        rw [copyAndFixupInsn_fixes h hform hmiss hout, overwrite_of_not_mem, copied_byte h hi]
        rw [u32Bytes_length]
        have hfour : form.nbytes = 4 := by
          cases form with
          | near | memory | jcc => rfl
          | short => exact absurd (.inr (.inl rfl)) hmiss
        rcases hrest form hform with hlt | hge
        · exact add_not_mem_block (.inl (by omega))
        · exact add_not_mem_block (.inr (by omega))

end

/-! ## The whole function -/

section

variable {w : Nat} {Page : Type} [DecidableEq Page] {env : Platform w Page}

omit [DecidableEq Page] in
theorem store_copies {pageOf : BitVec w → Page} {addr : BitVec w} {bytes : Bytes}
    {k k' : Kernel w Page} (h : k.store pageOf addr bytes = some k') : k'.copies = k.copies := by
  unfold Kernel.store at h
  split at h
  · cases h
    rfl
  · cases h

theorem setAddrRw_copies (api : PageApi) (page : Page) (k : Kernel w Page) :
    (setAddrRw api page k).2.copies = k.copies := by
  rcases setAddrRw_cases api page k with ⟨heq, -⟩ | heq <;> rw [heq]
  rfl

theorem setAddrRo_copies (api : PageApi) (page : Page) (flag : Option Bool) (k : Kernel w Page) :
    (setAddrRo api page flag k).copies = k.copies := by
  rcases setAddrRo_cases api page flag k with heq | heq <;> rw [heq]
  rfl

/-- The jump to the hook is not written to the copy. -/
theorem patchEntry_copies {code : BitVec w} {sym sym' : Kernsym w} {k k' : Kernel w Page}
    (h : patchEntry env code sym k = some (sym', k')) :
    k'.copies = k.copies ∧ sym'.addr = sym.addr ∧ sym'.size = sym.size ∧
      sym'.newAddr = sym.newAddr ∧ sym'.newSize = sym.newSize := by
  simp only [patchEntry, Option.bind_eq_bind, Option.bind_eq_some_iff] at h
  obtain ⟨k₁, h₁, k₂, h₂, heq⟩ := h
  cases heq
  rw [setAddrRo_copies, store_copies h₂, store_copies h₁, setAddrRw_copies]
  exact ⟨rfl, rfl, rfl, rfl, rfl⟩

/-- A success of `symbol_hijack` has gone through the copy loop. -/
theorem symbolHijack_copy {f : HookedFunction} {sym sym' : Kernsym w} {k k' : Kernel w Page}
    (h : symbolHijack env f sym k = some (0, sym', k')) :
    sym'.addr = (env.symbol f).addr ∧ sym'.size = (env.symbol f).size ∧
    env.malloc f = some sym'.newAddr ∧
    ∃ func d, func.addr = sym'.addr ∧ func.size = sym'.size ∧ sym'.newSize = d - sym'.newAddr ∧
      copyInsns env.decode k.text func (imageEnd k.text sym'.addr sym'.size)
        (sym'.size.toNat + 1) sym'.addr sym'.newAddr
        (fill k.copies sym'.newAddr 0 sym'.size.toNat) = some (some d, k'.copies) := by
  rcases symbolHijack_inv h with ⟨hret, -⟩ | ⟨-, -, func, d, copies, hrelocated⟩
  · exact absurd hret (Int.lt_irrefl 0)
  · obtain ⟨hcopies, haddr, hsize, hnew, hnewSize⟩ := patchEntry_copies hrelocated.patch
    rw [hcopies, haddr, hsize, hnew, hnewSize]
    exact ⟨hrelocated.addr, hrelocated.size, hrelocated.malloc, func, d, rfl, rfl, rfl,
      hrelocated.copy⟩

end

section

variable {Page : Type} [DecidableEq Page] {env : Platform 64 Page}

/-- The instructions that the copy loop goes through. -/
def Platform.CopiedInsn (env : Platform 64 Page) (text : Image 64) (f : HookedFunction)
    (a : BitVec 64) : Prop :=
  Reaches env.decode (imageEnd text (env.symbol f).addr (env.symbol f).size) (env.symbol f).addr a

/-- The bytes of a function whose copy has an instruction do not go around the
address space. -/
theorem mem_body_iff {text : Image 64} {sym func : Kernsym 64} {a : BitVec 64}
    (haddr : func.addr = sym.addr) (hsize : func.size = sym.size)
    (ha : a < imageEnd text sym.addr sym.size) (hle : sym.addr.toNat ≤ a.toNat) :
    (imageEnd text sym.addr sym.size).toNat ≤ sym.addr.toNat + sym.size.toNat ∧
      ∀ t, func.contains t = true ↔ t ∈ sym.body := by
  have hstart : sym.addr < sym.addr + sym.size := by
    by_contra hwrap
    rw [imageEnd, if_neg hwrap] at ha
    exact hwrap (BitVec.lt_def.mpr (Nat.lt_of_le_of_lt hle (BitVec.lt_def.mp ha)))
  have hend : (sym.addr + sym.size).toNat = sym.addr.toNat + sym.size.toNat := by
    rw [BitVec.lt_def, BitVec.toNat_add] at hstart
    rw [BitVec.toNat_add]
    have := sym.addr.isLt
    omega
  refine ⟨imageEnd_le (hend ▸ (sym.addr + sym.size).isLt), fun t => ?_⟩
  have hbody : t ∈ sym.body ↔ (t - sym.addr).toNat < sym.size.toNat := Iff.rfl
  rw [hbody, Kernsym.contains, haddr, hsize, Bool.and_eq_true, decide_eq_true_iff,
    decide_eq_true_iff, BitVec.le_def, BitVec.lt_def, hend, BitVec.toNat_sub]
  have := sym.addr.isLt
  have := sym.size.isLt
  have := t.isLt
  omega

/-- The copy behaves like the function, instruction by instruction. -/
def CopyBehaves (env : Platform 64 Page) (text : Image 64) (f : HookedFunction)
    (sym : Kernsym 64) (copies : Image 64) : Prop :=
  ∀ a, env.CopiedInsn text f a → InsnRelocated text copies sym a (env.decode a)

theorem copiedInsn_relocated_iff {f : HookedFunction} {sym sym' : Kernsym 64}
    {k k' : Kernel 64 Page} (h : symbolHijack env f sym k = some (0, sym', k'))
    (hdecoded : ∀ a, env.CopiedInsn k.text f a → DecodedAt k.text a (env.decode a))
    (hmalloc : ∀ newAddr, env.malloc f = some newAddr →
      Disjoint (block newAddr (env.symbol f).size.toNat)
        (block (env.symbol f).addr (env.symbol f).size.toNat))
    {a : BitVec 64} (ha : env.CopiedInsn k.text f a) :
    InsnRelocated k.text k'.copies sym' a (env.decode a) ↔
      Harmless k.text sym' a (env.decode a) := by
  obtain ⟨haddr, hsize, hnew, func, d, hfaddr, hfsize, -, hcopy⟩ := symbolHijack_copy h
  unfold Platform.CopiedInsn at hdecoded ha
  rw [← haddr, ← hsize] at hdecoded hmalloc ha
  have hstart : sym'.addr < imageEnd k.text sym'.addr sym'.size := by
    cases ha with
    | here hlt => exact hlt
    | there hlt => exact hlt
  obtain ⟨hend, hbody⟩ := mem_body_iff hfaddr hfsize hstart (Nat.le_refl _)
  have hpos : 0 < sym'.size.toNat := by
    have := BitVec.lt_def.mp hstart
    omega
  obtain ⟨hne, hhalf⟩ := disjoint_blocks hpos (hmalloc _ hnew)
  obtain ⟨-, -, before, hbytes⟩ := (copyInsns_insn hcopy hdecoded (by omega)).2 a ha
  exact insnRelocated_iff (hdecoded a ha) hbody hbytes hne

/-- The copy of a hooked function behaves like the function exactly if every jump
that is copied as it is leads into the function, or to a place that it could not
reach from the copy. -/
theorem copy_behaves_iff {f : HookedFunction} {sym sym' : Kernsym 64} {k k' : Kernel 64 Page}
    (h : symbolHijack env f sym k = some (0, sym', k'))
    (hdecoded : ∀ a, env.CopiedInsn k.text f a → DecodedAt k.text a (env.decode a))
    (hmalloc : ∀ newAddr, env.malloc f = some newAddr →
      Disjoint (block newAddr (env.symbol f).size.toNat)
        (block (env.symbol f).addr (env.symbol f).size.toNat)) :
    CopyBehaves env k.text f sym' k'.copies ↔
      ∀ a, env.CopiedInsn k.text f a → Harmless k.text sym' a (env.decode a) :=
  forall_congr' fun _ => forall_congr' fun ha => copiedInsn_relocated_iff h hdecoded hmalloc ha

end

/-! ## A conditional jump out of a function -/

/-- `je` to a place 512 bytes behind its address, and `ret`. -/
def coldBranch : Bytes := [0x0f, 0x84, 0xfa, 0x01, 0x00, 0x00, 0xc3]

def je : Insn :=
  { nop8 with
    opcode := ⟨0x840f, 2⟩
    modrm := ⟨0, 0⟩
    sib := ⟨0, 0⟩
    displacement := ⟨0, 0⟩
    immediate := ⟨0x1fa, 4⟩
    length := 6 }

def ret : Insn := { je with opcode := ⟨0xc3, 1⟩, immediate := ⟨0, 0⟩, length := 1 }

/-- A kernel in which `vfs_write` has these two instructions and nothing else is
found. -/
def coldBranchPlatform : Platform 64 (BitVec 64) where
  pageApi := .lookupAddress
  pageOf a := a >>> 12
  symbol
    | .write => ⟨0, vfsWriteAddr, vfsWriteAddr + 7⟩
    | .mkdir | .rmdir | .rename | .unlink | .symlink | .link | .create => ⟨-EFAULT, 0, 0⟩
  malloc _ := some 0xffffffffa0000000
  decode a := if a = vfsWriteAddr then je else ret
  func _ := 0xffffffffa0001000

def coldBranchKernel : Kernel 64 (BitVec 64) where
  text a := coldBranch.getD (a - vfsWriteAddr).toNat 0x90
  writable _ := false
  copies _ := 0
  stores := []

theorem coldBranch_end :
    imageEnd coldBranchKernel.text vfsWriteAddr (vfsWriteAddr + 7 - vfsWriteAddr) =
      vfsWriteAddr + 7 := by
  decide +kernel

theorem coldBranch_copied {a : BitVec 64}
    (ha : coldBranchPlatform.CopiedInsn coldBranchKernel.text .write a) :
    a = vfsWriteAddr ∨ a = vfsWriteAddr + 6 := by
  change Reaches _ (imageEnd _ vfsWriteAddr (vfsWriteAddr + 7 - vfsWriteAddr)) vfsWriteAddr a at ha
  rw [coldBranch_end] at ha
  cases ha with
  | here => exact .inl rfl
  | there _ ha =>
    cases ha with
    | here => exact .inr rfl
    | there _ ha =>
      have hend : ¬vfsWriteAddr + 7 < vfsWriteAddr + 7 := by decide
      cases ha with
      | here hlt => exact absurd hlt hend
      | there hlt => exact absurd hlt hend

theorem coldBranch_decoded {a : BitVec 64}
    (ha : coldBranchPlatform.CopiedInsn coldBranchKernel.text .write a) :
    DecodedAt coldBranchKernel.text a (coldBranchPlatform.decode a) := by
  have hje : DecodedAt coldBranchKernel.text vfsWriteAddr je := by
    refine ⟨by decide, by decide, fun form hform => ?_, fun form hform => ?_, fun h => absurd rfl h⟩
    all_goals
      obtain rfl : RelForm.jcc = form :=
        Option.some.inj ((by decide : je.relForm = some .jcc).symm.trans hform)
    · decide
    · decide +kernel
  have hret : DecodedAt coldBranchKernel.text (vfsWriteAddr + 6) ret := by
    have hnone : ret.relForm = none := by decide
    refine ⟨by decide, by decide, fun form hform => ?_, fun form hform => ?_, fun h => absurd rfl h⟩
    all_goals exact absurd (hnone.symm.trans hform) nofun
  rcases coldBranch_copied ha with rfl | rfl
  · exact hje
  · exact hret

theorem coldBranch_accepted : Accepted coldBranchPlatform coldBranchKernel.text .write where
  found := (by decide : (0 : Int) ≤ 0)
  not_jump := (by decide +kernel : coldBranchKernel.text vfsWriteAddr ≠ opJmpRel32)
  allocated := rfl
  long_enough := (by decide : opJmpSize ≤ (vfsWriteAddr + 7 - vfsWriteAddr).toNat)
  not_zero := by decide +kernel
  decodes := by
    change Decodes _ (imageEnd _ vfsWriteAddr (vfsWriteAddr + 7 - vfsWriteAddr)) vfsWriteAddr
    rw [coldBranch_end]
    exact .insn (by decide) (by decide) (.insn (by decide) (by decide) (.finish (by decide)))

theorem coldBranch_malloc {newAddr : BitVec 64}
    (h : coldBranchPlatform.malloc .write = some newAddr) :
    Disjoint (block newAddr (coldBranchPlatform.symbol .write).size.toNat)
      (block (coldBranchPlatform.symbol .write).addr
        (coldBranchPlatform.symbol .write).size.toNat) := by
  obtain rfl : (0xffffffffa0000000 : BitVec 64) = newAddr := Option.some.inj h
  refine Set.disjoint_left.mpr fun a hcopy hbody => ?_
  have hlo : (a - 0xffffffffa0000000).toNat < 7 := hcopy
  have hhi : (a - vfsWriteAddr).toNat < 7 := hbody
  unfold vfsWriteAddr at hhi
  bv_omega

theorem coldBranch_hijacked :
    ∃ sym k, symbolHijack coldBranchPlatform .write {} coldBranchKernel = some (0, sym, k) := by
  have hpage : coldBranchPlatform.OnePage (coldBranchPlatform.symbol .write).addr := by
    intro a ha
    have hnear : (a - vfsWriteAddr).toNat < 5 := ha
    change a >>> 12 = vfsWriteAddr >>> 12
    unfold vfsWriteAddr at hnear ⊢
    bv_omega
  have hsome : (symbolHijack coldBranchPlatform .write {} coldBranchKernel).isSome = true :=
    symbolHijack_isSome (fun _ => ⟨hpage, by decide +kernel⟩) _ _
  obtain ⟨⟨ret, sym, k⟩, hrun⟩ := Option.isSome_iff_exists.mp hsome
  rcases symbolHijack_cases hrun with ⟨-, hnot, -⟩ | ⟨rfl, -⟩
  · exact absurd coldBranch_accepted hnot
  · exact ⟨sym, k, hrun⟩

theorem copy_behaves_iff_cold_branch :
    ∃ sym k, symbolHijack coldBranchPlatform .write {} coldBranchKernel = some (0, sym, k) ∧
      (CopyBehaves coldBranchPlatform coldBranchKernel.text .write sym k.copies ↔
        ∀ a, coldBranchPlatform.CopiedInsn coldBranchKernel.text .write a →
          Harmless coldBranchKernel.text sym a (coldBranchPlatform.decode a)) := by
  obtain ⟨sym, k, hrun⟩ := coldBranch_hijacked
  exact ⟨sym, k, hrun, copy_behaves_iff hrun (fun _ ha => coldBranch_decoded ha)
    fun _ hnew => coldBranch_malloc hnew⟩

/-- In the copy the `je` leads to the 512th byte behind the copy. -/
theorem cold_branch_misdirected :
    (∀ a, coldBranchPlatform.CopiedInsn coldBranchKernel.text .write a →
      DecodedAt coldBranchKernel.text a (coldBranchPlatform.decode a)) ∧
    ∃ sym k, symbolHijack coldBranchPlatform .write {} coldBranchKernel = some (0, sym, k) ∧
      ¬CopyBehaves coldBranchPlatform coldBranchKernel.text .write sym k.copies := by
  refine ⟨fun _ ha => coldBranch_decoded ha, ?_⟩
  obtain ⟨sym, k, hrun⟩ := coldBranch_hijacked
  refine ⟨sym, k, hrun, fun hok => ?_⟩
  obtain ⟨haddr, hsize, hnew, -⟩ := symbolHijack_copy hrun
  have hnew : sym.newAddr = 0xffffffffa0000000 := (Option.some.inj hnew).symm
  have hfirst : coldBranchPlatform.CopiedInsn coldBranchKernel.text .write vfsWriteAddr := by
    refine .here ?_
    change vfsWriteAddr < imageEnd _ vfsWriteAddr (vfsWriteAddr + 7 - vfsWriteAddr)
    rw [coldBranch_end]
    decide
  have hharmless := (copiedInsn_relocated_iff hrun (fun _ ha => coldBranch_decoded ha)
    (fun _ hnew => coldBranch_malloc hnew) hfirst).mp (hok _ hfirst) .jcc (by decide) (.inl rfl)
  have htarget : targetAt coldBranchKernel.text vfsWriteAddr je .jcc = vfsWriteAddr + 0x200 := by
    decide +kernel
  change targetAt coldBranchKernel.text vfsWriteAddr je .jcc ∈ sym.body ∨
    ¬RelForm.jcc.Fits (neededDisplacement coldBranchKernel.text sym vfsWriteAddr je .jcc)
    at hharmless
  have hout : vfsWriteAddr + 0x200 ∉ sym.body := by
    rw [Kernsym.body, haddr, hsize]
    exact (by decide : ¬(vfsWriteAddr + 0x200 - vfsWriteAddr).toNat <
      (vfsWriteAddr + 7 - vfsWriteAddr).toNat)
  rw [neededDisplacement, htarget, Kernsym.relocated, if_neg hout, Kernsym.copyOf, haddr, hnew]
    at hharmless
  refine hharmless.elim hout fun hnot => hnot ?_
  exact (by decide +kernel : RelForm.jcc.Fits (vfsWriteAddr + 0x200 -
    (0xffffffffa0000000 + (vfsWriteAddr - vfsWriteAddr) + BitVec.ofNat 64 je.length.toNat)))

end RtBackup
