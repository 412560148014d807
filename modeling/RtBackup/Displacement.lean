import RtBackup.CopyBounds

/-!
# Displacements of 32 bits (`hijacks.c`)

`copy_and_fixup_insn` and `symbol_hijack` compute a displacement by a difference of
addresses of 64 bits that is cut to 32 bits, and the processor extends its sign again.
All sums wrap around at the end of the address space. The displacement leads to its
target exactly if the way from the end of the instruction to the target, taken in the
shorter direction, is a signed number of 32 bits.

Results:
1. `RelForm.fits_iff`: the displacements that survive the truncation.
2. `entryJump_exact`: the jump that `symbol_hijack` writes.
3. `displacement_exact_iff`: the operands that `copy_and_fixup_insn` leaves exact.
-/

namespace RtBackup

open AddressSpace ByteFile

/-! ## Displacements in range -/

/-- The signed distance from `behind` to `target`, around the end of the address space
where this is shorter, is an `s32`. -/
def InRange (behind target : BitVec 64) : Prop :=
  -2 ^ 31 ≤ (target - behind).toInt ∧ (target - behind).toInt < 2 ^ 31

instance (behind target : BitVec 64) : Decidable (InRange behind target) :=
  inferInstanceAs (Decidable (_ ∧ _))

/-- The operand of the instruction at `ip` resolves to `target` exactly if it is in
range. -/
def ExactAt (image : Image 64) (ip : BitVec 64) (insn : Insn) (form : RelForm)
    (target : BitVec 64) : Prop :=
  targetAt image ip insn form = target ↔ InRange (ip + BitVec.ofNat 64 insn.length.toNat) target

theorem toInt_setWidth_signExtend (d : BitVec 64) :
    ((d.setWidth 32).signExtend 64).toInt = d.toInt.bmod (2 ^ 32) := by
  rw [BitVec.toInt_signExtend_of_le (by decide), BitVec.toInt_setWidth, BitVec.toInt_eq_toNat_bmod]
  exact (Int.bmod_bmod_of_dvd (by decide)).symm

/-- The displacements that an operand of four bytes holds. -/
theorem RelForm.fits_iff {form : RelForm} (hfour : form.nbytes = 4) (behind target : BitVec 64) :
    form.Fits (target - behind) ↔ InRange behind target := by
  unfold InRange
  generalize target - behind = d
  have hfits : form.Fits d ↔ d.toInt.bmod (2 ^ 32) = d.toInt := by
    unfold RelForm.Fits
    generalize form.nbytes = n at hfour ⊢
    subst hfour
    rw [← BitVec.toInt_inj, toInt_setWidth_signExtend]
  rw [hfits]
  constructor
  · intro heq
    have hlow := Int.le_bmod (x := d.toInt) (m := 2 ^ 32) (by decide)
    have hhigh := Int.bmod_lt (x := d.toInt) (m := 2 ^ 32) (by decide)
    rw [heq] at hlow hhigh
    exact ⟨hlow, hhigh⟩
  · rintro ⟨hlow, hhigh⟩
    exact Int.bmod_eq_of_le hlow hhigh

/-! ## The jump at the entry -/

/-- `jmp` with 32 bits. -/
def entryJump : Insn where
  prefixes := ⟨0, 0⟩
  rex := ⟨0, 0⟩
  vex := ⟨0, 0⟩
  opcode := ⟨0xe9, 1⟩
  modrm := ⟨0, 0⟩
  sib := ⟨0, 0⟩
  displacement := ⟨0, 0⟩
  immediate := ⟨0, 4⟩
  length := 5
  ripRelative := false

section

variable {Page : Type} [DecidableEq Page]

theorem patchEntry_text {w : Nat} {env : Platform w Page} {code : BitVec w} {sym sym' : Kernsym w}
    {k k' : Kernel w Page} (h : patchEntry env code sym k = some (sym', k')) :
    k'.text = overwrite (overwrite k.text sym.addr [opJmpRel32]) (sym.addr + BitVec.ofNat w 1)
      (u32Bytes (codeOffsetFromAddr sym.addr opJmpSize code)) := by
  simp only [patchEntry, Option.bind_eq_bind, Option.bind_eq_some_iff] at h
  obtain ⟨k₁, h₁, k₂, h₂, heq⟩ := h
  cases heq
  rw [setAddrRo_text, (store_cases h₂).1, (store_cases h₁).1, setAddrRw_text]

/-- The function starts with a jump that leads to the hook exactly if the hook is in
range. -/
theorem entryJump_exact {env : Platform 64 Page} {f : HookedFunction} {sym sym' : Kernsym 64}
    {k k' : Kernel 64 Page} (h : symbolHijack env f sym k = some (0, sym', k')) :
    k'.text sym'.addr = opJmpRel32 ∧ ExactAt k'.text sym'.addr entryJump .near (env.func f) := by
  rcases symbolHijack_inv h with ⟨hret, -⟩ | ⟨-, -, func, d, copies, hrelocated⟩
  · exact absurd hret (Int.lt_irrefl 0)
  · have htext := patchEntry_text hrelocated.patch
    obtain ⟨haddr, -⟩ := patchEntry_cases hrelocated.patch
    rw [haddr]
    constructor
    · rw [htext, overwrite_of_not_mem]
      · have hfirst := @overwrite_add 64 k.text func.addr [opJmpRel32] 0 Nat.zero_lt_one (by decide)
        rwa [BitVec.add_zero] at hfirst
      · have hbehind := @add_not_mem_block 64 func.addr 0 1 4 (.inl (by decide))
        rw [BitVec.add_zero] at hbehind
        exact hbehind
    · have hread := @bytesAt_overwrite 64 (overwrite k.text func.addr [opJmpRel32])
        (func.addr + BitVec.ofNat 64 1) (u32Bytes (codeOffsetFromAddr func.addr opJmpSize (env.func f)))
      rw [u32Bytes_length] at hread
      have hoffset : entryJump.operandOffset .near = 1 := rfl
      have hlength : entryJump.length.toNat = opJmpSize := rfl
      have hstored : bytesAt k'.text
          (func.addr + BitVec.ofNat 64 (entryJump.operandOffset .near)) 4 =
            u32Bytes (codeOffsetFromAddr func.addr entryJump.length.toNat (env.func f)) := by
        rw [htext, hoffset, hlength]
        exact hread (by decide)
      exact (targetAt_eq_iff_of_stored rfl hstored).trans (RelForm.fits_iff rfl _ _)

end

/-! ## The operands of a copy -/

section

variable {text before : Image 64} {kaddr dest : BitVec 64} {insn : Insn} {func : Kernsym 64}
  {form : RelForm} (h : DecodedAt text kaddr insn) (hform : insn.relForm = some form)

include h hform

/-- The original operand is in range where it stands. -/
theorem DecodedAt.inRange :
    InRange (kaddr + BitVec.ofNat 64 insn.length.toNat) (targetAt text kaddr insn form) := by
  have hdistance : targetAt text kaddr insn form - (kaddr + BitVec.ofNat 64 insn.length.toNat) =
      (insn.operandValue form).signExtend 64 := by
    rw [targetAt, h.operand_eq form hform]
    abel
  rw [InRange, hdistance, BitVec.toInt_signExtend_of_le (by decide)]
  exact ⟨BitVec.le_toInt _, BitVec.toInt_lt⟩

/-- A RIP-relative operand of an instruction that is taken for a `call` or `jmp` is
copied as it is, which is right only in its old place, or where it is out of reach. -/
theorem exactAt_iff_of_missed (hmiss : insn.Misses form) :
    ExactAt (copyAndFixupInsn text kaddr insn dest func before) dest insn form
        (targetAt text kaddr insn form) ↔
      dest = kaddr ∨
        ¬InRange (dest + BitVec.ofNat 64 insn.length.toNat) (targetAt text kaddr insn form) := by
  have hkept : targetAt (copyAndFixupInsn text kaddr insn dest func before) dest insn form =
      dest + (targetAt text kaddr insn form - kaddr) :=
    targetAt_of_kept h (fun _ _ => rfl) hform (.inl hmiss)
  have hplace : targetAt (copyAndFixupInsn text kaddr insn dest func before) dest insn form =
      targetAt text kaddr insn form ↔ dest = kaddr := by
    rw [hkept]
    constructor
    · intro heq
      calc
        dest = dest + (targetAt text kaddr insn form - kaddr) -
            (targetAt text kaddr insn form - kaddr) := by abel
        _ = kaddr := by
          rw [heq]
          abel
    · rintro rfl
      abel
  rw [ExactAt, hplace]
  by_cases hsame : dest = kaddr
  · subst hsame
    exact iff_of_true (iff_of_true rfl (h.inRange hform)) (.inl rfl)
  · rw [iff_false_left hsame, or_iff_right hsame]

end

/-- For a `call`, a `jmp` or a RIP-relative operand with a target outside the function:
what is stored in the copy, and in the jump at the entry, resolves to its target
exactly if this is in range, unless the opcode of another instruction is taken for that of
a `call` or `jmp`. -/
theorem displacement_exact_iff {Page : Type} [DecidableEq Page] {text before : Image 64}
    {kaddr dest : BitVec 64} {insn : Insn} {func : Kernsym 64} {form : RelForm}
    (h : DecodedAt text kaddr insn) (hform : insn.relForm = some form)
    (hrel : form = .near ∨ form = .memory)
    (hout : func.contains (targetAt text kaddr insn form) = false)
    {env : Platform 64 Page} {f : HookedFunction} {sym sym' : Kernsym 64} {k k' : Kernel 64 Page}
    (hhijack : symbolHijack env f sym k = some (0, sym', k')) :
    ExactAt (copyAndFixupInsn text kaddr insn dest func before) dest insn form
          (targetAt text kaddr insn form) ∧
        ExactAt k'.text sym'.addr entryJump .near (env.func f) ↔
      (insn.CallOrJmp → form = .near) ∨ dest = kaddr ∨
        ¬InRange (dest + BitVec.ofNat 64 insn.length.toNat) (targetAt text kaddr insn form) := by
  rw [and_iff_left (entryJump_exact hhijack).2]
  by_cases hcall : insn.CallOrJmp → form = .near
  · have hmiss : ¬insn.Misses form := by
      rintro (rfl | rfl | ⟨rfl, hopcode⟩)
      · simp at hrel
      · simp at hrel
      · cases hcall hopcode
    have hfour : form.nbytes = 4 := by
      rcases hrel with rfl | rfl <;> rfl
    refine iff_of_true ?_ (.inl hcall)
    exact (targetAt_eq_iff_of_fixed h (fun _ _ => rfl) hform hmiss (by simp [hout])).trans
      (RelForm.fits_iff hfour _ _)
  · obtain ⟨hopcode, hnear⟩ := Classical.not_imp.mp hcall
    obtain rfl : form = .memory := hrel.resolve_left hnear
    rw [exactAt_iff_of_missed h hform (.inr (.inr ⟨rfl, hopcode⟩)), or_iff_right hcall]

theorem callOut_decoded :
    DecodedAt (smallKernel callOut).text vfsWriteAddr (decodeCallOut vfsWriteAddr) := by
  have hform : (decodeCallOut vfsWriteAddr).relForm = some .near := by decide
  refine ⟨by decide, by decide, fun form h => ?_, fun form h => ?_, fun hvex => absurd rfl hvex⟩
  all_goals obtain rfl : RelForm.near = form := Option.some.inj (hform.symm.trans h)
  · decide
  · decide +kernel

theorem displacement_exact_iff_call_out :
    ∃ sym k, symbolHijack (smallPlatform 6 decodeCallOut) .write {} (smallKernel callOut) =
        some (0, sym, k) ∧
      (ExactAt (copyAndFixupInsn (smallKernel callOut).text vfsWriteAddr
            (decodeCallOut vfsWriteAddr) 0xffffffffa0000000 {} fun _ => 0) 0xffffffffa0000000
            (decodeCallOut vfsWriteAddr) .near
            (targetAt (smallKernel callOut).text vfsWriteAddr (decodeCallOut vfsWriteAddr) .near) ∧
        ExactAt k.text sym.addr entryJump .near 0xffffffffa0001000) := by
  obtain ⟨sym, k, hrun⟩ := smallPlatform_hijacked callOut_accepted (by decide +kernel)
  refine ⟨sym, k, hrun, ?_⟩
  exact (displacement_exact_iff callOut_decoded (by decide) (.inl rfl) (by decide +kernel) hrun).mpr
    (.inl fun _ => rfl)

/-- `vpsubsb` of `xmm0` and the 16 bytes 4096 behind it. -/
def vpsubsb : Insn where
  prefixes := ⟨0, 0⟩
  rex := ⟨0, 0⟩
  vex := ⟨0xf9c5, 2⟩
  opcode := ⟨0xe8, 1⟩
  modrm := ⟨0x05, 1⟩
  sib := ⟨0, 0⟩
  displacement := ⟨0x1000, 4⟩
  immediate := ⟨0, 0⟩
  length := 8
  ripRelative := true

def vpsubsbText (a : BitVec 64) : UInt8 :=
  ([0xc5, 0xf9, 0xe8, 0x05, 0x00, 0x10, 0x00, 0x00] : Bytes).getD (a - vfsWriteAddr).toNat 0x90

/-- Its operand is in range of the copy and is not changed. -/
theorem vex_operand_not_exact :
    DecodedAt vpsubsbText vfsWriteAddr vpsubsb ∧ vpsubsb.relForm = some .memory ∧
      let func : Kernsym 64 := { addr := vfsWriteAddr, size := 8 }
      func.contains (targetAt vpsubsbText vfsWriteAddr vpsubsb .memory) = false ∧
      ¬ExactAt (copyAndFixupInsn vpsubsbText vfsWriteAddr vpsubsb 0xffffffffa0000000 func
          fun _ => 0) 0xffffffffa0000000 vpsubsb .memory
        (targetAt vpsubsbText vfsWriteAddr vpsubsb .memory) := by
  have hform : vpsubsb.relForm = some .memory := by decide
  have hdecoded : DecodedAt vpsubsbText vfsWriteAddr vpsubsb := by
    refine ⟨by decide, by decide, fun form h => ?_, fun form h => ?_, fun _ _ => ⟨rfl, rfl⟩⟩
    all_goals obtain rfl : RelForm.memory = form := Option.some.inj (hform.symm.trans h)
    · decide
    · decide +kernel
  refine ⟨hdecoded, hform, by decide +kernel, ?_⟩
  rw [exactAt_iff_of_missed hdecoded hform (by decide), not_or, not_not]
  exact ⟨by decide, by decide +kernel⟩

end RtBackup
