import RtBackup.InsnStages

/-!
# The layout of an instruction

Results:
1. `Tail.Fits.takes`, `tailBody_read`: the fields behind the opcode.
2. `Decodes.takes`, `getLength_read`: `insn_get_length` takes prefixes, opcode and
   these fields, and what it looks at is part of them.
3. `getLength_isSome`: with enough bytes it does not fail.
-/

namespace RtBackup

open ByteFile InputReader Inat Stages

namespace InsnState

open FieldState

/-! ## Behind the opcode -/

/-- The bytes of the fields behind the opcode. -/
structure Tail where
  modrm : Bytes
  sib : Bytes
  displacement : Bytes
  immediate : Bytes
  immediate2 : Bytes

namespace Tail

def bytes (p : Tail) : Bytes :=
  p.modrm ++ (p.sib ++ (p.displacement ++ (p.immediate ++ p.immediate2)))

variable (p : Tail) (s : InsnState)

def afterSib : InsnState := (s.withModrm p.modrm).withSib p.sib

def afterDisplacement : InsnState := (p.afterSib s).withDisplacement p.displacement

def afterImmediates : InsnState :=
  (p.afterDisplacement s).withImmediates (p.immediate ++ p.immediate2)

/-- The fields have the sizes that follow from what is in front of them. -/
structure Fits : Prop where
  modrm : p.modrm.length = s.modrmSize
  sib : p.sib.length = (s.withModrm p.modrm).sibSize
  displacement : p.displacement.length = (p.afterSib s).displacementSize
  immediate : p.immediate.length = (p.afterDisplacement s).immediateSizes.1
  immediate2 : p.immediate2.length = (p.afterDisplacement s).immediateSizes.2

/-- The instruction at the end. -/
def result : InsnState :=
  { p.afterImmediates s with length := UInt8.ofNat (p.afterImmediates s).nextByte }

end Tail

/-- What `insn_get_length` does behind the opcode. -/
def tailBody (s : InsnState) : Decoding InsnState :=
  s.modrmBody >>= sibBody >>= displacementBody >>= immediateBody >>= lengthBody

theorem split_of_length {c : Bytes} {m n : Nat} (h : c.length = m + n) :
    ∃ a b, c = a ++ b ∧ a.length = m ∧ b.length = n := by
  refine ⟨c.take m, c.drop m, (List.take_append_drop m c).symm,
    List.length_take_of_le (by omega), ?_⟩
  rw [List.length_drop]
  omega

section

variable {x8664 : Bool} {s : InsnState} (h : Collected x8664 2 s)

include h

theorem collected_withModrm {bs : Bytes} (hlen : bs.length = s.modrmSize) :
    Collected x8664 3 (s.withModrm bs) := by
  have hrun := takes_takeWith s.withModrm bs []
  rw [hlen, ← modrmBody_eq (h.fresh 2 (Nat.le_refl 2))] at hrun
  exact h.modrm hrun

theorem Collected.afterSib {p : Tail} (hp : p.Fits s) : Collected x8664 4 (p.afterSib s) := by
  have h3 := collected_withModrm h hp.modrm
  have hrun := takes_takeWith (s.withModrm p.modrm).withSib p.sib []
  rw [hp.sib, ← sibBody_eq (h3.fresh 3 (Nat.le_refl 3))] at hrun
  exact h3.sib hrun

theorem Collected.afterDisplacement {p : Tail} (hp : p.Fits s) :
    Collected x8664 5 (p.afterDisplacement s) := by
  have h4 := h.afterSib hp
  have hrun := takes_takeWith (p.afterSib s).withDisplacement p.displacement []
  rw [hp.displacement, ← displacementBody_eq (h4.fresh 4 (Nat.le_refl 4))] at hrun
  exact h4.displacement hrun

theorem Tail.Fits.takes {p : Tail} (hp : p.Fits s) : Takes s.tailBody p.bytes (p.result s) := by
  have h3 := collected_withModrm h hp.modrm
  have h4 := h.afterSib hp
  have h5 := h.afterDisplacement hp
  have hmodrm : Takes s.modrmBody p.modrm (s.withModrm p.modrm) := by
    rw [modrmBody_eq (h.fresh 2 (Nat.le_refl 2)), ← hp.modrm]
    exact takes_takeWith _ _
  have hsib : Takes (s.withModrm p.modrm).sibBody p.sib (p.afterSib s) := by
    rw [sibBody_eq (h3.fresh 3 (Nat.le_refl 3)), ← hp.sib]
    exact takes_takeWith _ _
  have hdisp : Takes (p.afterSib s).displacementBody p.displacement (p.afterDisplacement s) := by
    rw [displacementBody_eq (h4.fresh 4 (Nat.le_refl 4)), ← hp.displacement]
    exact takes_takeWith _ _
  have himm : Takes (p.afterDisplacement s).immediateBody (p.immediate ++ p.immediate2)
      (p.afterImmediates s) := by
    rw [h5.immediateBody_eq, ← hp.immediate, ← hp.immediate2, ← List.length_append]
    exact takes_takeWith _ _
  have hlength : Takes (p.afterImmediates s).lengthBody [] (p.result s) := takes_pure _
  simpa [Tail.bytes, tailBody] using (((hmodrm.bind hsib).bind hdisp).bind himm).bind hlength

theorem tailBody_read {input r : Bytes} {t : InsnState} (hrun : s.tailBody input = some (t, r)) :
    ∃ p : Tail, input = p.bytes ++ r ∧ p.Fits s ∧ t = p.result s := by
  obtain ⟨s₆, r₆, hrun, hlength⟩ := bind_eq_some.mp hrun
  obtain ⟨s₅, r₅, hrun, himm⟩ := bind_eq_some.mp hrun
  obtain ⟨s₄, r₄, hrun, hdisp⟩ := bind_eq_some.mp hrun
  obtain ⟨s₃, r₃, hmodrm, hsib⟩ := bind_eq_some.mp hrun
  have h3 := h.modrm hmodrm
  rw [modrmBody_eq (h.fresh 2 (Nat.le_refl 2))] at hmodrm
  obtain ⟨modrm, rfl, hlen3, rfl⟩ := takeWith_eq_some hmodrm
  have h4 := h3.sib hsib
  rw [sibBody_eq (h3.fresh 3 (Nat.le_refl 3))] at hsib
  obtain ⟨sib, rfl, hlen4, rfl⟩ := takeWith_eq_some hsib
  have h5 := h4.displacement hdisp
  rw [displacementBody_eq (h4.fresh 4 (Nat.le_refl 4))] at hdisp
  obtain ⟨displacement, rfl, hlen5, rfl⟩ := takeWith_eq_some hdisp
  rw [h5.immediateBody_eq] at himm
  obtain ⟨c, rfl, hlen6, rfl⟩ := takeWith_eq_some himm
  obtain ⟨immediate, immediate2, rfl, hfirst, hsecond⟩ := split_of_length hlen6
  cases hlength
  refine ⟨⟨modrm, sib, displacement, immediate, immediate2⟩, ?_,
    ⟨hlen3, hlen4, hlen5, hfirst, hsecond⟩, rfl⟩
  simp only [Tail.bytes, List.append_assoc]

end

/-! ## How long it is -/

/-- The sizes of the immediates that the opcode map may ask for. -/
def sizesOfKinds : List (InsnAttr × Nat × Nat) :=
  [(immByte, 1, 0), (immWord, 2, 0), (immDword, 4, 0), (immQword, 4, 4), (immPtr, 2, 2),
    (immPtr, 4, 2), (immPtr, 0, 2), (immVword32, 2, 0), (immVword32, 4, 0), (immVword, 2, 0),
    (immVword, 4, 0), (immVword, 4, 4)]

theorem kindSizes_cases (insn : InsnState) :
    insn.kindSizes = (0, 0) ∨ (immediateSize insn.attr, insn.kindSizes) ∈ sizesOfKinds := by
  by_cases hptr : immediateSize insn.attr = immPtr
  · rw [kindSizes_ptr hptr, hptr]
    split_ifs <;> decide
  by_cases hv32 : immediateSize insn.attr = immVword32
  · rw [kindSizes_vword32 hv32, hv32]
    split_ifs <;> decide
  by_cases hvword : immediateSize insn.attr = immVword
  · rw [kindSizes_vword hvword, hvword]
    split_ifs <;> decide
  unfold kindSizes
  simp only [hptr, hv32, hvword, if_false]
  split_ifs with hbyte hword hdword hqword
  · exact .inr (hbyte ▸ by decide)
  · exact .inr (hword ▸ by decide)
  · exact .inr (hdword ▸ by decide)
  · exact .inr (hqword ▸ by decide)
  · exact .inl rfl

theorem kindSizes_le (insn : InsnState) :
    insn.kindSizes.1 + insn.kindSizes.2 ≤ immBound (immediateSize insn.attr) := by
  have hsizes : ∀ e ∈ sizesOfKinds, e.2.1 + e.2.2 ≤ immBound e.1 := by decide
  rcases insn.kindSizes_cases with heq | hmem
  · rw [heq]
    exact Nat.zero_le _
  · exact hsizes _ hmem

theorem immediateSizes_le (insn : InsnState) :
    insn.immediateSizes.1 + insn.immediateSizes.2 ≤
      (if hasMoffset insn.attr then 8 else immBound (immediateSize insn.attr)) +
        if hasSecondImmediate insn.attr then 1 else 0 := by
  have hkind := insn.kindSizes_le
  unfold immediateSizes
  split_ifs
  all_goals omega

theorem modrmSize_le (s : InsnState) : s.modrmSize ≤ 1 := by
  unfold modrmSize
  split <;> decide

theorem sibSize_le (s : InsnState) : s.sibSize ≤ 1 := by
  unfold sibSize
  split <;> decide

theorem displacementSize_le (s : InsnState) : s.displacementSize ≤ 4 := by
  unfold displacementSize
  simp only
  split_ifs
  all_goals decide

/-- Without a ModRM byte there is no SIB byte and no displacement. -/
theorem sizes_of_no_modrm {s : InsnState} (h : s.modrm.nbytes = 0) :
    s.sibSize = 0 ∧ s.displacementSize = 0 :=
  ⟨if_neg fun hsib => hsib.1 h, if_pos h⟩

theorem immediateSizes_le_of_allows {s : InsnState} {k : Nat} (h : Allows k s.attr) :
    (if hasModrm s.attr then 6 else 0) + (s.immediateSizes.1 + s.immediateSizes.2) ≤ k := by
  have hsizes := immediateSizes_le s
  have hbound := h.1
  unfold tailBound at hbound
  omega

namespace Tail

variable {p : Tail} {s : InsnState} {k : Nat}

theorem attr_afterDisplacement :
    (p.afterDisplacement s).attr = s.attrOf (p.modrm.headD 0) := rfl

theorem Fits.length_le (hp : p.Fits s) (h : GroupAllows k s.attr) : p.bytes.length ≤ k := by
  have himm := immediateSizes_le_of_allows (s := p.afterDisplacement s) (attrOf_allows h _)
  have hsib := sibSize_le (s.withModrm p.modrm)
  have hdisp := displacementSize_le (p.afterSib s)
  have hlen : p.bytes.length = s.modrmSize + ((s.withModrm p.modrm).sibSize +
      ((p.afterSib s).displacementSize + ((p.afterDisplacement s).immediateSizes.1 +
        (p.afterDisplacement s).immediateSizes.2))) := by
    simp only [bytes, List.length_append, hp.modrm, hp.sib, hp.displacement, hp.immediate,
      hp.immediate2]
  rw [attr_afterDisplacement] at himm
  by_cases hmodrm : hasModrm s.attr = true
  · have hattr : hasModrm (s.attrOf (p.modrm.headD 0)) = true := by
      unfold attrOf
      split
      · exact hasModrm_getGroupAttribute hmodrm _ _
      · exact hmodrm
    have hone := modrmSize_le s
    rw [if_pos hattr] at himm
    omega
  · have hzero : s.modrmSize = 0 := if_neg hmodrm
    have hnbytes : (s.withModrm p.modrm).modrm.nbytes = 0 := by
      have hnil : p.modrm = [] := List.eq_nil_of_length_eq_zero (hp.modrm.trans hzero)
      rw [hnil]
      rfl
    obtain ⟨hsib0, -⟩ := sizes_of_no_modrm hnbytes
    have hdisp0 : (p.afterSib s).displacementSize = 0 := if_pos hnbytes
    omega

/-- Sixteen bytes are enough for any instruction. -/
theorem exists_fits (h : GroupAllows 10 s.attr) {input : Bytes} (hlen : 16 ≤ input.length) :
    ∃ p r, input = Tail.bytes p ++ r ∧ p.Fits s := by
  have hsplit : ∀ (c : Bytes) n, n ≤ c.length → ∃ a b, c = a ++ b ∧ a.length = n ∧
      b.length = c.length - n := fun c n hn =>
    split_of_length (by omega)
  have hle₁ := modrmSize_le s
  obtain ⟨modrm, r₁, rfl, hmodrm, hr₁⟩ := hsplit input s.modrmSize (by omega)
  have hle₂ := sibSize_le (s.withModrm modrm)
  obtain ⟨sib, r₂, rfl, hsib, hr₂⟩ := hsplit r₁ (s.withModrm modrm).sibSize (by omega)
  have hle₃ := displacementSize_le ((s.withModrm modrm).withSib sib)
  obtain ⟨disp, r₃, rfl, hdisp, hr₃⟩ :=
    hsplit r₂ ((s.withModrm modrm).withSib sib).displacementSize (by omega)
  let s₅ := ((s.withModrm modrm).withSib sib).withDisplacement disp
  have hle₄ := immediateSizes_le_of_allows (s := s₅) (attrOf_allows h _)
  obtain ⟨imm, r₄, rfl, hfirst, hr₄⟩ := hsplit r₃ s₅.immediateSizes.1 (by omega)
  obtain ⟨imm2, r₅, rfl, hsecond, -⟩ := hsplit r₄ s₅.immediateSizes.2 (by omega)
  refine ⟨⟨modrm, sib, disp, imm, imm2⟩, r₅, ?_, ⟨hmodrm, hsib, hdisp, hfirst, hsecond⟩⟩
  simp only [bytes, List.append_assoc]

end Tail

/-! ## The whole instruction -/

/-- The bytes of an instruction. -/
structure Parts where
  legacy : Bytes
  rex : Bytes
  vex : Bytes
  op : UInt8
  escaped : Bytes
  tail : Tail

def Parts.bytes (p : Parts) : Bytes :=
  p.legacy ++ (p.rex ++ p.vex) ++ (p.op :: p.escaped ++ p.tail.bytes)

/-- The parts are what the decoder takes for prefixes, opcode and the rest. -/
structure Decodes (x8664 : Bool) (p : Parts) (u : Bytes) (s₁ s₂ : InsnState) : Prop where
  prefixes : PrefixesRead x8664 p.legacy p.rex p.vex u s₁
  opcode : OpcodeRead s₁ s₂ p.op p.escaped
  tail : p.tail.Fits s₂
  -- what was looked at belongs to the instruction
  ahead : u <+: p.op :: p.escaped ++ p.tail.bytes

theorem getLength_init (x8664 : Bool) :
    getLength (insnInit x8664) =
      (insnInit x8664).prefixesBody >>= fun s => s.opcodeBody >>= tailBody := by
  have hthrough := ensure_add (collected_init x8664).at 7
  rw [Nat.zero_add] at hthrough
  have htail : tailBody = fun s => s.modrmBody >>= fun s => s.sibBody >>= fun s =>
      s.displacementBody >>= fun s => s.immediateBody >>= lengthBody := by
    funext s
    simp only [tailBody, bind_assoc]
  rw [getLength_eq, hthrough, htail]
  simp only [through, bind_assoc, pure_bind]
  rfl

theorem PrefixesRead.collected {x8664 : Bool} {legacy rex vex u : Bytes} {t : InsnState}
    (h : PrefixesRead x8664 legacy rex vex u t) : Collected x8664 1 t :=
  (collected_init x8664).prefixes (h.looks [])

theorem OpcodeRead.collected {x8664 : Bool} {s t : InsnState} {op : UInt8} {c : Bytes}
    (h : OpcodeRead s t op c) (hs : Collected x8664 1 s) : Collected x8664 2 t :=
  hs.opcode (h.takes [])

theorem Decodes.takes {x8664 : Bool} {p : Parts} {u : Bytes} {s₁ s₂ : InsnState}
    (h : Decodes x8664 p u s₁ s₂) :
    Takes (getLength (insnInit x8664)) p.bytes (p.tail.result s₂) := by
  obtain ⟨d, hd⟩ := h.ahead
  rw [getLength_init, Parts.bytes, ← hd]
  refine h.prefixes.looks.bind ?_
  rw [hd]
  exact h.opcode.takes.bind (h.tail.takes (h.opcode.collected h.prefixes.collected))

theorem PrefixesRead.isAvx_iff {x8664 : Bool} {legacy rex vex u : Bytes} {t : InsnState}
    (h : PrefixesRead x8664 legacy rex vex u t) : t.isAvx = true ↔ vex ≠ [] := by
  have hval : t.vexPrefix.value = BitVec.ofNat 32 (leVal vex) := by
    rw [h.fields]
    exact value_plain vex
  rw [isAvx, hval, bne_iff_ne]
  constructor
  · rintro hne rfl
    exact hne rfl
  · intro hne hzero
    obtain ⟨b, rest, rfl⟩ := List.exists_cons_of_ne_nil hne
    have hb := (getOpcodeAttribute_vex (h.vex_first b rest rfl)).1
    have hlt := leVal_lt_word (Nat.le_succ_of_le h.vex_length)
    have hnat := congrArg BitVec.toNat hzero
    rw [BitVec.toNat_ofNat, Nat.mod_eq_of_lt hlt, leVal] at hnat
    refine hb (UInt8.toNat_inj.mp ?_)
    have hzero8 : (0 : UInt8).toNat = 0 := rfl
    have hzero32 : (0 : BitVec 32).toNat = 0 := rfl
    omega

theorem OpcodeRead.escaped_eq_nil {s t : InsnState} {op : UInt8} {c : Bytes}
    (h : OpcodeRead s t op c) (havx : s.isAvx = false)
    (hesc : isEscape (getOpcodeAttribute op) = false) : c = [] := by
  by_contra hne
  have hescape := h.escapes havx [] List.nil_prefix (Ne.symm hne)
  rw [escapedAttr, List.foldl_nil, hesc] at hescape
  cases hescape

/-- An opcode of one byte has its attribute from the primary table. -/
theorem OpcodeRead.attr_eq {s t : InsnState} {op : UInt8} {c : Bytes} (h : OpcodeRead s t op c)
    (havx : s.isAvx = false) (hesc : isEscape (getOpcodeAttribute op) = false)
    (hmust : mustVex (getOpcodeAttribute op) = false) : t.attr = getOpcodeAttribute op := by
  obtain rfl := h.escaped_eq_nil havx hesc
  have hfound : s.opcodeAttr op [] = if mustVex (getOpcodeAttribute op) then 0
      else getOpcodeAttribute op := by
    rw [opcodeAttr, havx]
    rfl
  rw [h.fields, hfound, hmust]
  rfl

/-- In 32-bit mode LES and LDS are told from VEX prefixes by their ModRM byte. -/
theorem modrmSize_of_vex {x8664 : Bool} {legacy rex u : Bytes} {s₁ s₂ : InsnState} {op : UInt8}
    {c : Bytes} (h : PrefixesRead x8664 legacy rex [] u s₁) (hop : OpcodeRead s₁ s₂ op c)
    (hvex : isVexPrefix (getOpcodeAttribute op) = true) : s₂.modrmSize = 1 := by
  obtain ⟨-, hmodrm, hesc, hmust⟩ := getOpcodeAttribute_vex hvex
  have havx : s₁.isAvx = false := by
    rw [Bool.eq_false_iff]
    exact fun havx => h.isAvx_iff.mp havx rfl
  rw [modrmSize, hop.attr_eq havx hesc hmust, if_pos hmodrm]

theorem LookedAt.ahead {x8664 : Bool} {p : Parts} {u r r' : Bytes} {s₁ s₂ : InsnState}
    (h : PrefixesRead x8664 p.legacy p.rex p.vex u s₁) (hop : OpcodeRead s₁ s₂ p.op p.escaped)
    (htail : p.tail.Fits s₂) (heq : u ++ r' = p.op :: p.escaped ++ p.tail.bytes ++ r) :
    u <+: p.op :: p.escaped ++ p.tail.bytes := by
  refine List.prefix_of_prefix_length_le ⟨r', heq⟩ (List.prefix_append _ r) ?_
  rw [List.length_append, List.length_cons]
  rcases h.looked with ⟨-, rfl⟩ | ⟨hvex, b, rfl | ⟨hlong, b2, rfl⟩⟩
  · exact Nat.zero_le _
  · rw [List.length_singleton]
    omega
  · obtain rfl : b = p.op := (List.cons.inj heq).1
    rw [hvex] at h
    have hone := htail.modrm.trans (modrmSize_of_vex h hop hlong)
    simp only [Tail.bytes, List.length_append, hone, List.length_cons, List.length_nil]
    omega

theorem getLength_read {x8664 : Bool} {code r : Bytes} {insn : InsnState}
    (h : getLength (insnInit x8664) code = some (insn, r)) :
    ∃ p u s₁ s₂, code = Parts.bytes p ++ r ∧ Decodes x8664 p u s₁ s₂ ∧
      insn = p.tail.result s₂ := by
  rw [getLength_init] at h
  obtain ⟨s₁, r₁, hprefixes, h⟩ := bind_eq_some.mp h
  obtain ⟨s₂, r₂, hopcode, htail⟩ := bind_eq_some.mp h
  obtain ⟨legacy, rex, vex, u, r', rfl, rfl, hp⟩ := prefixesBody_read hprefixes
  have hfresh := hp.collected.fresh 1 (Nat.le_refl 1)
  rcases opcodeBody_read hfresh (u ++ r') with ⟨hnone, -⟩ | ⟨t, op, c, r'', hsplit, hop⟩
  · rw [hnone] at hopcode
    cases hopcode
  · rw [hsplit, hop.takes r''] at hopcode
    cases hopcode
    obtain ⟨tail, rfl, hfits, rfl⟩ := tailBody_read (hop.collected hp.collected) htail
    let p : Parts := ⟨legacy, rex, vex, op, c, tail⟩
    have hsplit' : u ++ r' = op :: c ++ tail.bytes ++ r := by rw [hsplit, List.append_assoc]
    refine ⟨p, u, s₁, s₂, ?_, ⟨hp, hop, hfits, LookedAt.ahead (p := p) hp hop hfits hsplit'⟩, rfl⟩
    rw [hsplit']
    simp only [p, Parts.bytes, List.append_assoc]

theorem getLength_local (x8664 : Bool) : Local (getLength (insnInit x8664)) := by
  intro code insn r h
  obtain ⟨p, u, s₁, s₂, rfl, hd, rfl⟩ := getLength_read h
  exact ⟨p.bytes, rfl, hd.takes⟩

/-- With enough bytes that are no prefixes any code becomes an instruction. -/
theorem getLength_isSome (x8664 : Bool) (code : Bytes) :
    ∃ insn r, getLength (insnInit x8664) (code ++ List.replicate 23 0) = some (insn, r) := by
  have hz : ¬Legacy 0 := by decide +kernel
  obtain ⟨s₁, r₁, hprefixes, hlen₁⟩ :=
    prefixesBody_isSome x8664 code hz (by decide : 3 ≤ (List.replicate 22 (0 : UInt8)).length)
  rw [List.length_replicate] at hlen₁
  obtain ⟨legacy, rex, vex, u, r', -, -, hp⟩ := prefixesBody_read hprefixes
  rcases opcodeBody_read (hp.collected.fresh 1 (Nat.le_refl 1)) r₁ with
    ⟨-, hshort⟩ | ⟨s₂, op, c, r₂, rfl, hop⟩
  · omega
  · have h2 := hop.collected hp.collected
    have hle := hop.length_le
    rw [List.length_append] at hlen₁
    have hlen₂ : 16 ≤ r₂.length := by omega
    obtain ⟨p, r, rfl, hfits⟩ := Tail.exists_fits (h2.found rfl) hlen₂
    refine ⟨p.result s₂, r, ?_⟩
    rw [getLength_init]
    exact bind_eq_some.mpr ⟨s₁, _, hprefixes, bind_eq_some.mpr ⟨s₂, _, hop.takes _,
      hfits.takes h2 r⟩⟩

end InsnState

end RtBackup
