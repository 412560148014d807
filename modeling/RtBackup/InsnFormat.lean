import RtBackup.InsnLayout

/-!
# Instructions as byte strings

Results:
1. `getLength_eq_some_iff`, `getLength_eq_none_iff`: the instructions are a prefix
   code, and the decoder fails on the starts of its words only.
2. `isInsn_layout`: the fields are the bytes of the instruction, one behind the
   other.
3. `isInsn_length_le`: behind the legacy prefixes there are at most twelve bytes.
4. `isInsn_prefixes_kept`: what is kept of the prefixes.
-/

namespace RtBackup

open ByteFile InputReader Inat

namespace InsnState

open FieldState

/-- All of `c` is one instruction, which is decoded as `insn`. -/
def IsInsn (x8664 : Bool) (c : Bytes) (insn : InsnState) : Prop :=
  getLength (insnInit x8664) c = some (insn, [])

/-- The decoder takes one instruction, and what follows makes no difference. -/
theorem getLength_eq_some_iff (x8664 : Bool) (code r : Bytes) (insn : InsnState) :
    getLength (insnInit x8664) code = some (insn, r) ↔ ∃ c, code = c ++ r ∧ IsInsn x8664 c insn := by
  constructor
  · intro h
    obtain ⟨c, rfl, hc⟩ := getLength_local x8664 _ _ _ h
    exact ⟨c, rfl, List.append_nil c ▸ hc []⟩
  · rintro ⟨c, rfl, hc⟩
    obtain ⟨c', heq, hc'⟩ := getLength_local x8664 _ _ _ hc
    rw [List.append_nil] at heq
    exact heq ▸ hc' r

/-- The decoder fails on what is the start of an instruction, and on nothing else. -/
theorem getLength_eq_none_iff (x8664 : Bool) (code : Bytes) :
    getLength (insnInit x8664) code = none ↔
      ∃ d insn, d ≠ [] ∧ IsInsn x8664 (code ++ d) insn := by
  constructor
  · intro hnone
    obtain ⟨insn, r, hrun⟩ := getLength_isSome x8664 code
    obtain ⟨c, heq, hc⟩ := getLength_local x8664 _ _ _ hrun
    rcases List.append_eq_append_iff.mp heq with ⟨d, rfl, -⟩ | ⟨d, rfl, -⟩
    · refine ⟨d, insn, ?_, List.append_nil (code ++ d) ▸ hc []⟩
      rintro rfl
      have hsome := hc []
      rw [List.append_nil, List.append_nil, hnone] at hsome
      cases hsome
    · rw [hc d] at hnone
      cases hnone
  · rintro ⟨d, insn, hne, hd⟩
    obtain ⟨c, heq, hc⟩ := getLength_local x8664 _ _ _ hd
    rw [List.append_nil] at heq
    exact (getLength_local x8664).none_of_short hc heq.symm hne

/-! ## The fields -/

/-- The bytes of the fields behind the legacy prefixes. -/
def fieldsBytes (insn : InsnState) : Bytes :=
  (insn.rexPrefix.fieldBytes ++ insn.vexPrefix.fieldBytes) ++ (insn.opcode.fieldBytes ++
    (insn.modrm.fieldBytes ++ (insn.sib.fieldBytes ++ (insn.displacement.fieldBytes ++
      (insn.immediate.fieldBytes ++ insn.immediate2.fieldBytes)))))

theorem kindSizes_each (insn : InsnState) : insn.kindSizes.1 ≤ 4 ∧ insn.kindSizes.2 ≤ 4 := by
  have hsizes : ∀ e ∈ sizesOfKinds, e.2.1 ≤ 4 ∧ e.2.2 ≤ 4 := by decide
  rcases insn.kindSizes_cases with heq | hmem
  · rw [heq]
    decide
  · exact hsizes _ hmem

theorem immediateSizes_each (insn : InsnState) :
    insn.immediateSizes.1 ≤ 4 ∧ insn.immediateSizes.2 ≤ 4 := by
  obtain ⟨hfirst, hsecond⟩ := insn.kindSizes_each
  unfold immediateSizes
  repeat' split
  all_goals first | exact ⟨hfirst, hsecond⟩ | exact ⟨hfirst, Nat.le_add_left 1 3⟩ | decide

theorem value2_cases (insn : InsnState) :
    insn.value2 = signedValue ∨ insn.value2 = fun bs => BitVec.ofNat 32 (leVal bs) := by
  unfold value2
  split
  · exact .inr rfl
  · exact .inl rfl

namespace Tail

variable {p : Tail} {s : InsnState}

theorem Fits.immediate_eq (hp : p.Fits s) :
    (p.result s).immediate.fieldBytes = p.immediate ∧
      (p.result s).immediate.value = signedValue p.immediate := by
  have htake : (p.immediate ++ p.immediate2).take (p.afterDisplacement s).immediateSizes.1 =
      p.immediate := List.take_left' hp.immediate
  have hle : p.immediate.length ≤ 4 := hp.immediate ▸ (immediateSizes_each _).1
  have heq : (p.result s).immediate = { signed p.immediate with got := true } := by
    conv_rhs => rw [← htake]
    rfl
  rw [heq]
  exact ⟨fieldBytes_signed hle, value_signed _⟩

theorem Fits.immediate2_eq (hp : p.Fits s) :
    (p.result s).immediate2.fieldBytes = p.immediate2 := by
  have hdrop : (p.immediate ++ p.immediate2).drop (p.afterDisplacement s).immediateSizes.1 =
      p.immediate2 := List.drop_left' hp.immediate
  have hlen : (p.immediate ++ p.immediate2).length - (p.afterDisplacement s).immediateSizes.1 =
      p.immediate2.length := by
    rw [List.length_append, ← hp.immediate, Nat.add_sub_cancel_left]
  have hle : p.immediate2.length ≤ 4 := hp.immediate2 ▸ (immediateSizes_each _).2
  have heq : (p.result s).immediate2 =
      ⟨wordBytes ((p.afterDisplacement s).value2 p.immediate2),
        (p.afterDisplacement s).immediate2Got, UInt8.ofNat p.immediate2.length⟩ := by
    change FieldState.mk (wordBytes ((p.afterDisplacement s).value2
      ((p.immediate ++ p.immediate2).drop (p.afterDisplacement s).immediateSizes.1))) _
        (UInt8.ofNat ((p.immediate ++ p.immediate2).length -
          (p.afterDisplacement s).immediateSizes.1)) = _
    rw [hdrop, hlen]
  rw [heq]
  rcases value2_cases (p.afterDisplacement s) with hv | hv
  · rw [hv]
    exact fieldBytes_signed hle
  · rw [hv]
    exact fieldBytes_plain hle

theorem Fits.displacement_eq (hp : p.Fits s) :
    (p.result s).displacement.fieldBytes = p.displacement ∧
      (p.result s).displacement.value = signedValue p.displacement := by
  have hle : p.displacement.length ≤ 4 := hp.displacement ▸ displacementSize_le _
  exact ⟨fieldBytes_signed hle, value_signed _⟩

theorem Fits.modrm_eq (hp : p.Fits s) :
    (p.result s).modrm.fieldBytes = p.modrm ∧ (p.result s).sib.fieldBytes = p.sib := by
  have hmodrm : p.modrm.length ≤ 4 := hp.modrm ▸ Nat.le_trans (modrmSize_le _) (by decide)
  have hsib : p.sib.length ≤ 4 := hp.sib ▸ Nat.le_trans (sibSize_le _) (by decide)
  exact ⟨fieldBytes_plain hmodrm, fieldBytes_plain hsib⟩

theorem nextByte_result : (p.result s).nextByte = s.nextByte + p.bytes.length := by
  simp only [bytes, List.length_append]
  change s.nextByte + p.modrm.length + p.sib.length + p.displacement.length +
    (p.immediate ++ p.immediate2).length = _
  rw [List.length_append]
  omega

end Tail

section

variable {x8664 : Bool} {p : Parts} {u : Bytes} {s₁ s₂ : InsnState}
  (h : Decodes x8664 p u s₁ s₂)

include h

theorem Decodes.rex_length : p.rex.length ≤ 1 := by
  rcases h.prefixes.rex_cases with hrex | ⟨-, b, hrex, -⟩
  · rw [hrex]
    exact Nat.zero_le 1
  · rw [hrex]
    exact Nat.le_refl 1

theorem Decodes.rexVex_eq : (p.tail.result s₂).rexPrefix.fieldBytes = p.rex ∧
    (p.tail.result s₂).vexPrefix.fieldBytes = p.vex := by
  have hrex : (p.tail.result s₂).rexPrefix = plain p.rex := by
    change s₂.rexPrefix = _
    rw [h.opcode.fields, h.prefixes.fields]
  have hvex : (p.tail.result s₂).vexPrefix = plain p.vex := by
    change s₂.vexPrefix = _
    rw [h.opcode.fields, h.prefixes.fields]
  rw [hrex, hvex]
  exact ⟨fieldBytes_plain (Nat.le_trans h.rex_length (by decide)),
    fieldBytes_plain (Nat.le_succ_of_le h.prefixes.vex_length)⟩

theorem Decodes.fieldsBytes_eq : (p.tail.result s₂).fieldsBytes =
    (p.rex ++ p.vex) ++ (p.op :: p.escaped ++ p.tail.bytes) := by
  have hop : (p.tail.result s₂).opcode.fieldBytes = p.op :: p.escaped := h.opcode.bytes
  rw [fieldsBytes, h.rexVex_eq.1, h.rexVex_eq.2, hop, h.tail.modrm_eq.1, h.tail.modrm_eq.2,
    h.tail.displacement_eq.1, h.tail.immediate_eq.1, h.tail.immediate2_eq]
  rfl

theorem Decodes.bytes_eq : p.bytes = p.legacy ++ (p.tail.result s₂).fieldsBytes := by
  rw [h.fieldsBytes_eq, Parts.bytes, List.append_assoc]

theorem Decodes.nextByte_eq : (p.tail.result s₂).nextByte = p.bytes.length := by
  have hone : s₁.nextByte = p.legacy.length + p.rex.length + p.vex.length := by
    rw [h.prefixes.fields]
  rw [Tail.nextByte_result, h.opcode.fields]
  simp only [Parts.bytes, List.length_append, hone]
  omega

theorem Decodes.length_le : (p.tail.result s₂).fieldsBytes.length ≤ 12 := by
  have hop := opcodeAttr_allows s₁ p.op p.escaped
  have hattr : s₂.attr = s₁.opcodeAttr p.op p.escaped := by rw [h.opcode.fields]
  rw [← hattr] at hop
  have htail := h.tail.length_le hop
  have hrex := h.rex_length
  have hvex := h.prefixes.vex_length
  have hlen := h.opcode.length_le
  rw [h.fieldsBytes_eq]
  simp only [List.length_append, List.length_cons] at hlen ⊢
  by_cases havx : p.vex = []
  · have hvex0 : p.vex.length = 0 := by rw [havx, List.length_nil]
    by_cases hesc : p.escaped = []
    · have hroom := opcodeRoom_le s₁ p.escaped
      have hesc0 : p.escaped.length = 0 := by rw [hesc, List.length_nil]
      omega
    · have hroom : s₁.opcodeRoom p.escaped = 7 := if_pos (.inr hesc)
      omega
  · -- with a VEX prefix there are no escapes
    have hisavx := h.prefixes.isAvx_iff.mpr havx
    have hroom : s₁.opcodeRoom p.escaped = 7 := if_pos (.inl hisavx)
    have hesc0 : p.escaped.length = 0 := by rw [h.opcode.of_vex hisavx, List.length_nil]
    omega

end

theorem IsInsn.decodes {x8664 : Bool} {c : Bytes} {insn : InsnState} (h : IsInsn x8664 c insn) :
    ∃ p u s₁ s₂, c = Parts.bytes p ∧ Decodes x8664 p u s₁ s₂ ∧ insn = p.tail.result s₂ := by
  obtain ⟨p, u, s₁, s₂, heq, hd, hinsn⟩ := getLength_read h
  rw [List.append_nil] at heq
  exact ⟨p, u, s₁, s₂, heq, hd, hinsn⟩

/-- `lock addq $0x08070605, 0x04030201(%rsp)`. -/
def lockAdd : Bytes := [0xf0, 0x48, 0x81, 0x84, 0x24, 1, 2, 3, 4, 5, 6, 7, 8]

theorem exists_lockAdd : ∃ insn, IsInsn true lockAdd insn := by
  have hrest : (getLength (insnInit true) lockAdd).map Prod.snd = some [] := by decide +kernel
  obtain ⟨⟨insn, r⟩, hrun, rfl⟩ := Option.map_eq_some_iff.mp hrest
  exact ⟨insn, hrun⟩

/-- The fields are the bytes of the instruction behind its legacy prefixes, and the
displacement and the immediate have the values of their bytes. -/
theorem isInsn_layout {x8664 : Bool} {c : Bytes} {insn : InsnState} (h : IsInsn x8664 c insn) :
    ∃ legacy, (∀ b ∈ legacy, Legacy b) ∧ c = legacy ++ insn.fieldsBytes ∧
      insn.prefixes.nbytes = UInt8.ofNat legacy.length ∧ insn.nextByte = c.length ∧
      insn.length = UInt8.ofNat c.length ∧
      insn.displacement.value = signedValue insn.displacement.fieldBytes ∧
      insn.immediate.value = signedValue insn.immediate.fieldBytes := by
  obtain ⟨p, u, s₁, s₂, rfl, hd, rfl⟩ := h.decodes
  refine ⟨p.legacy, hd.prefixes.all_legacy, hd.bytes_eq, ?_, hd.nextByte_eq, ?_, ?_, ?_⟩
  · change s₂.prefixes.nbytes = _
    rw [hd.opcode.fields, hd.prefixes.fields]
  · rw [← hd.nextByte_eq]
    rfl
  · rw [hd.tail.displacement_eq.1, hd.tail.displacement_eq.2]
  · rw [hd.tail.immediate_eq.1, hd.tail.immediate_eq.2]

theorem isInsn_layout_lockAdd : ∃ insn, IsInsn true lockAdd insn ∧
    insn.displacement.value = signedValue insn.displacement.fieldBytes ∧
      ∃ legacy, (∀ b ∈ legacy, Legacy b) ∧ lockAdd = legacy ++ insn.fieldsBytes := by
  obtain ⟨insn, h⟩ := exists_lockAdd
  obtain ⟨legacy, hlegacy, heq, -, -, -, hvalue, -⟩ := isInsn_layout h
  exact ⟨insn, h, hvalue, legacy, hlegacy, heq⟩

/-- Four different legacy prefixes and twelve more bytes are the most, and `length`
is right as long as the prefixes are not repeated too often. -/
theorem isInsn_length_le {x8664 : Bool} {c : Bytes} {insn : InsnState} (h : IsInsn x8664 c insn) :
    ∃ legacy rest, c = legacy ++ rest ∧ (∀ b ∈ legacy, Legacy b) ∧
      legacy.eraseDups.length ≤ 4 ∧ 1 ≤ rest.length ∧ rest.length ≤ 12 ∧
      (legacy.length ≤ 243 → insn.length.toNat = c.length) := by
  obtain ⟨p, u, s₁, s₂, rfl, hd, rfl⟩ := h.decodes
  have hle := hd.length_le
  refine ⟨p.legacy, (p.tail.result s₂).fieldsBytes, hd.bytes_eq, hd.prefixes.all_legacy,
    hd.prefixes.distinct, ?_, hle, fun hfew => ?_⟩
  · rw [hd.fieldsBytes_eq]
    simp only [List.length_append, List.length_cons]
    omega
  · have hlen : (p.tail.result s₂).length = UInt8.ofNat p.bytes.length := by
      rw [← hd.nextByte_eq]
      rfl
    rw [hlen, UInt8.toNat_ofNat', hd.bytes_eq, List.length_append]
    exact Nat.mod_eq_of_lt (by omega)

theorem isInsn_length_le_lockAdd : ∃ insn legacy rest, IsInsn true lockAdd insn ∧
    lockAdd = legacy ++ rest ∧ rest.length ≤ 12 := by
  obtain ⟨insn, h⟩ := exists_lockAdd
  obtain ⟨legacy, rest, heq, -, -, -, hle, -⟩ := isInsn_length_le h
  exact ⟨insn, legacy, rest, h, heq, hle⟩

/-- The legacy prefixes go on until another byte comes or there are four different
ones. Each of them is kept, the last one at the end, and the sizes are those that
the prefixes select. -/
theorem isInsn_prefixes_kept {x8664 : Bool} {c : Bytes} {insn : InsnState}
    (h : IsInsn x8664 c insn) :
    ∃ legacy b rest, c = legacy ++ b :: rest ∧ (∀ b ∈ legacy, Legacy b) ∧
      (Legacy b → legacy.eraseDups.length = 4 ∧ b ∉ legacy) ∧
      insn.lastPrefix = legacy.getLast?.getD 0 ∧
      (∀ b ≠ 0, b ∈ insn.prefixes.bytes.toList ↔ b ∈ legacy) ∧
      insn.addrBytes = prefixedAddrBytes x8664 legacy ∧
      insn.opndBytes = if x8664 && isForce64 insn.attr then 8
        else sizedOpndBytes x8664 legacy insn.rexPrefix.fieldBytes insn.vexPrefix.fieldBytes := by
  obtain ⟨p, u, s₁, s₂, rfl, hd, rfl⟩ := h.decodes
  obtain ⟨d, hahead⟩ := hd.ahead
  obtain ⟨b, rest, hstart, hstop⟩ := hd.prefixes.stop
  refine ⟨p.legacy, b, rest ++ d, ?_, hd.prefixes.all_legacy, hstop, ?_, ?_, ?_, ?_⟩
  · rw [← List.cons_append, ← hstart, Parts.bytes, ← hahead]
    simp only [List.append_assoc]
  · change s₂.lastPrefix = _
    rw [hd.opcode.fields]
    exact hd.prefixes.last
  · change ∀ b ≠ 0, b ∈ s₂.prefixes.bytes.toList ↔ _
    rw [hd.opcode.fields]
    exact hd.prefixes.mem_iff
  · change s₂.addrBytes = _
    rw [hd.opcode.fields, hd.prefixes.fields]
  · have hx : s₂.x8664 = x8664 := (hd.opcode.collected hd.prefixes.collected).x8664_eq
    have hopnd : s₂.opndBytes = sizedOpndBytes x8664 p.legacy p.rex p.vex := by
      rw [hd.opcode.fields, hd.prefixes.fields]
    rw [hd.rexVex_eq.1, hd.rexVex_eq.2, ← hopnd, ← hx]
    rfl

theorem isInsn_prefixes_kept_lockAdd : ∃ insn legacy b rest, IsInsn true lockAdd insn ∧
    lockAdd = legacy ++ b :: rest ∧ insn.lastPrefix = legacy.getLast?.getD 0 ∧
      ∀ b ≠ 0, b ∈ insn.prefixes.bytes.toList ↔ b ∈ legacy := by
  obtain ⟨insn, h⟩ := exists_lockAdd
  obtain ⟨legacy, b, rest, heq, -, -, hlast, hmem, -⟩ := isInsn_prefixes_kept h
  exact ⟨insn, legacy, b, rest, h, heq, hlast, hmem⟩

end InsnState

end RtBackup
