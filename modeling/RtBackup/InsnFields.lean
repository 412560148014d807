import RtBackup.InsnDecoder

/-!
# The fields behind the prefixes

Each function collects its field with one read: how many bytes it takes follows
from what has been collected before.

Results:
1. `fieldBytes_plain`, `fieldBytes_signed`: a field keeps the bytes that it was
   read from.
2. `modrmBody_eq`, `sibBody_eq`, `displacementBody_eq`, `immediateBody_eq`: what
   the functions read and set.
-/

namespace RtBackup

open ByteFile InputReader Inat

namespace FieldState

/-- The bytes of the instruction that the field was read from. -/
def fieldBytes (f : FieldState) : Bytes := f.bytes.toList.take f.nbytes.toNat

/-- A field with an unsigned value. -/
def plain (bs : Bytes) : FieldState where
  bytes := wordBytes (BitVec.ofNat 32 (leVal bs))
  got := true
  nbytes := UInt8.ofNat bs.length

/-- A field with a signed value. -/
def signed (bs : Bytes) : FieldState where
  bytes := wordBytes (InsnState.signedValue bs)
  got := true
  nbytes := UInt8.ofNat bs.length

theorem toList_wordBytes (v : BitVec 32) : (wordBytes v).toList = leBytes 4 v.toNat := rfl

theorem leBytes_add (k n v : Nat) : leBytes (k + n) v = leBytes k v ++ leBytes n (v / 256 ^ k) := by
  induction k generalizing v with
  | zero => rw [Nat.zero_add, Nat.pow_zero, Nat.div_one, leBytes, List.nil_append]
  | succ k ih =>
    rw [Nat.add_right_comm, leBytes, leBytes, ih, Nat.div_div_eq_div_mul, Nat.pow_succ,
      Nat.mul_comm 256, List.cons_append]

theorem leBytes_zero (n : Nat) : leBytes n 0 = List.replicate n 0 := by
  induction n with
  | zero => rfl
  | succ n ih =>
    rw [leBytes, Nat.zero_div, ih, List.replicate_succ]
    rfl

theorem take_leBytes {k n : Nat} (h : k ≤ n) (v : Nat) : (leBytes n v).take k = leBytes k v := by
  obtain ⟨m, rfl⟩ := Nat.exists_eq_add_of_le h
  rw [leBytes_add]
  exact List.take_left' (leBytes_length k v)

/-- The first bytes of a word say what it is modulo a power of 256. -/
theorem take_wordBytes {v : BitVec 32} {bs : Bytes} (hlen : bs.length ≤ 4)
    (h : v.toNat % 256 ^ bs.length = leVal bs) : (wordBytes v).toList.take bs.length = bs := by
  rw [toList_wordBytes, take_leBytes hlen]
  calc
    leBytes bs.length v.toNat = leBytes bs.length (leVal (leBytes bs.length v.toNat)) := by
      conv_lhs => rw [← leBytes_leVal (leBytes bs.length v.toNat), leBytes_length]
    _ = leBytes bs.length (leVal bs) := by rw [leVal_leBytes, h]
    _ = bs := leBytes_leVal bs

theorem toNat_nbytes {bs : Bytes} (hlen : bs.length ≤ 4) :
    (UInt8.ofNat bs.length).toNat = bs.length := by
  rw [UInt8.toNat_ofNat']
  omega

theorem value_wordBytes {f : FieldState} {v : BitVec 32} (h : f.bytes = wordBytes v) :
    f.value = v := by
  rw [value, h, toList_wordBytes, leVal_leBytes]
  refine BitVec.eq_of_toNat_eq ?_
  have hlt : v.toNat < 256 ^ 4 := v.isLt
  rw [BitVec.toNat_ofNat, Nat.mod_eq_of_lt hlt]
  exact Nat.mod_eq_of_lt v.isLt

theorem leVal_lt_word {bs : Bytes} (hlen : bs.length ≤ 4) : leVal bs < 2 ^ 32 :=
  Nat.lt_of_lt_of_le (leVal_lt bs) (Nat.pow_le_pow_right (by decide : 0 < 256) hlen)

/-- The bytes that were not read are 0. -/
theorem toList_plain {bs : Bytes} (hlen : bs.length ≤ 4) :
    (plain bs).bytes.toList = bs ++ List.replicate (4 - bs.length) 0 := by
  have hval : (BitVec.ofNat 32 (leVal bs)).toNat = leVal bs := by
    rw [BitVec.toNat_ofNat]
    exact Nat.mod_eq_of_lt (leVal_lt_word hlen)
  have hfour : 4 = bs.length + (4 - bs.length) := (Nat.add_sub_cancel' hlen).symm
  rw [plain, toList_wordBytes, hval]
  conv_lhs => rw [hfour]
  rw [leBytes_add, leBytes_leVal, Nat.div_eq_of_lt (leVal_lt bs), leBytes_zero]

theorem fieldBytes_plain {bs : Bytes} (hlen : bs.length ≤ 4) : (plain bs).fieldBytes = bs := by
  rw [fieldBytes, toList_plain hlen, plain, toNat_nbytes hlen, List.take_left]

theorem toNat_signedValue {bs : Bytes} (hlen : bs.length ≤ 4) :
    (InsnState.signedValue bs).toNat % 256 ^ bs.length = leVal bs := by
  have hpow : 256 ^ bs.length = 2 ^ (8 * bs.length) := by rw [Nat.pow_mul]
  have hlow : (InsnState.signedValue bs).setWidth (8 * bs.length) =
      BitVec.ofNat (8 * bs.length) (leVal bs) := by
    refine BitVec.eq_of_getLsbD_eq fun i hi => ?_
    rw [InsnState.signedValue, BitVec.getLsbD_setWidth, BitVec.getLsbD_signExtend]
    simp only [hi, decide_true, Bool.true_and, if_true]
    rw [decide_eq_true (by omega : i < 32), Bool.true_and]
  have hnat := congrArg BitVec.toNat hlow
  rw [BitVec.toNat_setWidth, BitVec.toNat_ofNat, ← hpow, Nat.mod_eq_of_lt (leVal_lt bs)] at hnat
  exact hnat

theorem fieldBytes_signed {bs : Bytes} (hlen : bs.length ≤ 4) : (signed bs).fieldBytes = bs := by
  rw [fieldBytes, signed, toNat_nbytes hlen]
  exact take_wordBytes hlen (toNat_signedValue hlen)

theorem value_plain (bs : Bytes) : (plain bs).value = BitVec.ofNat 32 (leVal bs) :=
  value_wordBytes rfl

theorem value_signed (bs : Bytes) : (signed bs).value = InsnState.signedValue bs :=
  value_wordBytes rfl

/-- A byte of the instruction as an integer. -/
theorem assign_byte (b : UInt8) :
    ({ ({} : FieldState).assign (b.toBitVec.setWidth 32) 1 with got := true } : FieldState) =
      plain [b] := by
  have hval : b.toBitVec.setWidth 32 = BitVec.ofNat 32 (leVal [b]) := by
    refine BitVec.eq_of_toNat_eq ?_
    rw [BitVec.toNat_setWidth, BitVec.toNat_ofNat, leVal, leVal, Nat.mul_zero, Nat.add_zero]
    rfl
  rw [assign, hval]
  rfl

/-- Nothing was read. -/
theorem plain_nil : ({ got := true } : FieldState) = plain [] := rfl

theorem signed_nil : ({ got := true } : FieldState) = signed [] := rfl

end FieldState

namespace InsnState

open FieldState

/-! ## ModRM -/

def modrmSize (insn : InsnState) : Nat := if hasModrm insn.attr then 1 else 0

/-- The attribute after the ModRM byte, which selects the entry of a group. -/
def attrOf (insn : InsnState) (mod : UInt8) : InsnAttr :=
  if hasModrm insn.attr && isGroup insn.attr then getGroupAttribute mod insn.lastPrefix insn.attr
  else insn.attr

def withModrm (insn : InsnState) (bs : Bytes) : InsnState :=
  let attr := insn.attrOf (bs.headD 0)
  { insn with
    modrm := plain bs
    attr
    opndBytes := if insn.x8664 && isForce64 attr then 8 else insn.opndBytes
    nextByte := insn.nextByte + bs.length }

theorem modrmBody_eq {insn : InsnState} (hnew : insn.modrm = {}) :
    insn.modrmBody = takeWith insn.modrmSize insn.withModrm := by
  unfold modrmBody modrmSize
  by_cases hmodrm : hasModrm insn.attr
  · simp only [hmodrm, if_true, getByte, bind_assoc, pure_bind]
    rw [next_bind_pure 0]
    refine takeWith_congr fun c hc => ?_
    obtain ⟨b, rfl⟩ := List.length_eq_one_iff.mp hc
    simp only [withModrm, attrOf, hmodrm, Bool.true_and, List.headD_cons, hnew, assign_byte,
      List.length_singleton]
    rfl
  · simp only [hmodrm, Bool.false_eq_true, if_false, pure_bind, hnew, plain_nil, takeWith_zero]
    simp only [withModrm, attrOf, hmodrm, Bool.false_and]
    rfl

/-! ## SIB and the displacement -/

def sibSize (insn : InsnState) : Nat :=
  if insn.modrm.nbytes ≠ 0 ∧ insn.addrBytes ≠ 2 ∧ modrmMod insn.modrm.byteValue ≠ 3 ∧
      modrmRm insn.modrm.byteValue = 4 then 1
  else 0

def withSib (insn : InsnState) (bs : Bytes) : InsnState :=
  { insn with sib := plain bs, nextByte := insn.nextByte + bs.length }

theorem sibBody_eq {insn : InsnState} (hnew : insn.sib = {}) :
    insn.sibBody = takeWith insn.sibSize insn.withSib := by
  unfold sibBody sibSize
  simp only
  split_ifs
  · simp only [getByte, bind_assoc, pure_bind]
    rw [next_bind_pure 0]
    refine takeWith_congr fun c hc => ?_
    obtain ⟨b, rfl⟩ := List.length_eq_one_iff.mp hc
    simp only [withSib, List.headD_cons, hnew, assign_byte, List.length_singleton]
  · rw [pure_bind, hnew, takeWith_zero, withSib, ← plain_nil]
    rfl

def displacementSize (insn : InsnState) : Nat :=
  let mod := modrmMod insn.modrm.byteValue
  let rm := modrmRm insn.modrm.byteValue
  if insn.modrm.nbytes = 0 then 0
  else if mod = 3 then 0
  else if mod = 1 then 1
  else if insn.addrBytes = 2 then if mod = 0 ∧ rm = 6 ∨ mod = 2 then 2 else 0
  else if mod = 0 ∧ rm = 5 ∨ mod = 2 ∨ mod = 0 ∧ sibBase insn.sib.byteValue = 5 then 4
  else 0

def withDisplacement (insn : InsnState) (bs : Bytes) : InsnState :=
  { insn with displacement := signed bs, nextByte := insn.nextByte + bs.length }

theorem readDisplacement_bind {insn : InsnState} (hnew : insn.displacement = {}) (n : Nat) :
    (insn.readDisplacement n >>= fun insn =>
      pure { insn with displacement := { insn.displacement with got := true } }) =
      takeWith n insn.withDisplacement := by
  simp only [readDisplacement, getNext, bind_assoc, pure_bind]
  refine bind_congr_of_result fun _ c _ hc => ?_
  obtain ⟨-, rfl⟩ := take_eq_some hc
  rw [hnew]
  rfl

theorem displacementBody_eq {insn : InsnState} (hnew : insn.displacement = {}) :
    insn.displacementBody = takeWith insn.displacementSize insn.withDisplacement := by
  have hnone : (pure insn >>= fun insn : InsnState =>
      pure { insn with displacement := { insn.displacement with got := true } }) =
      takeWith 0 insn.withDisplacement := by
    rw [pure_bind, hnew, takeWith_zero, withDisplacement, ← signed_nil]
    rfl
  unfold displacementBody displacementSize
  simp only
  split_ifs
  all_goals first | exact hnone | exact readDisplacement_bind hnew _

/-! ## Immediates -/

/-- The bytes of both immediates for the sizes of the opcode map. -/
def kindSizes (insn : InsnState) : Nat × Nat :=
  let size := immediateSize insn.attr
  if size = immByte then (1, 0)
  else if size = immWord then (2, 0)
  else if size = immDword then (4, 0)
  else if size = immQword then (4, 4)
  else if size = immPtr then
    if insn.opndBytes = 8 then (0, 0)
    else if insn.opndBytes = 2 then (2, 2)
    else if insn.opndBytes = 4 then (4, 2)
    else (0, 2)
  else if size = immVword32 then
    if insn.opndBytes = 2 then (2, 0)
    else if insn.opndBytes = 4 ∨ insn.opndBytes = 8 then (4, 0)
    else (0, 0)
  else if size = immVword then
    if insn.opndBytes = 2 then (2, 0)
    else if insn.opndBytes = 4 then (4, 0)
    else if insn.opndBytes = 8 then (4, 4)
    else (0, 0)
  else (0, 0)

theorem kindSizes_ptr {insn : InsnState} (hsize : immediateSize insn.attr = immPtr) :
    insn.kindSizes =
      if insn.opndBytes = 8 then (0, 0)
      else if insn.opndBytes = 2 then (2, 2)
      else if insn.opndBytes = 4 then (4, 2)
      else (0, 2) := by
  unfold kindSizes
  rw [hsize]
  rfl

theorem kindSizes_vword32 {insn : InsnState} (hsize : immediateSize insn.attr = immVword32) :
    insn.kindSizes =
      if insn.opndBytes = 2 then (2, 0)
      else if insn.opndBytes = 4 ∨ insn.opndBytes = 8 then (4, 0)
      else (0, 0) := by
  unfold kindSizes
  rw [hsize]
  rfl

theorem kindSizes_vword {insn : InsnState} (hsize : immediateSize insn.attr = immVword) :
    insn.kindSizes =
      if insn.opndBytes = 2 then (2, 0)
      else if insn.opndBytes = 4 then (4, 0)
      else if insn.opndBytes = 8 then (4, 4)
      else (0, 0) := by
  unfold kindSizes
  rw [hsize]
  rfl

def immediateSizes (insn : InsnState) : Nat × Nat :=
  if hasMoffset insn.attr then
    if insn.addrBytes = 2 then (2, 0)
    else if insn.addrBytes = 4 then (4, 0)
    else if insn.addrBytes = 8 then (4, 4)
    else (0, 0)
  else if !hasImmediate insn.attr then (0, 0)
  else if hasSecondImmediate insn.attr then (insn.kindSizes.1, 1)
  else insn.kindSizes

/-- The selector of a far pointer is the only unsigned one. -/
def value2 (insn : InsnState) : Bytes → BitVec 32 :=
  if !hasMoffset insn.attr && hasImmediate insn.attr && immediateSize insn.attr == immPtr then
    fun bs => BitVec.ofNat 32 (leVal bs)
  else signedValue

/-- `immediate2.got` at the end. -/
def immediate2Got (insn : InsnState) : Bool :=
  hasMoffset insn.attr || hasImmediate insn.attr && (immediateSize insn.attr == immVword ||
    immediateSize insn.attr == immPtr && insn.opndBytes != 8)

/-- The first `m` bytes are one immediate, the rest is the other one. -/
def withBoth (insn : InsnState) (m : Nat) (got got2 : Bool) (v : Bytes → BitVec 32)
    (bs : Bytes) : InsnState :=
  { insn with
    immediate := { signed (bs.take m) with got }
    immediate2 := ⟨wordBytes (v (bs.drop m)), got2, UInt8.ofNat (bs.length - m)⟩
    nextByte := insn.nextByte + bs.length }

def withImmediates (insn : InsnState) : Bytes → InsnState :=
  insn.withBoth insn.immediateSizes.1 true insn.immediate2Got insn.value2

section

variable {insn : InsnState} (hnew : insn.immediate = {}) (hnew2 : insn.immediate2 = {})

include hnew hnew2

theorem pure_eq_withBoth :
    (pure insn : Decoding InsnState) = takeWith 0 (insn.withBoth 0 false false signedValue) := by
  rw [takeWith_zero, withBoth, List.take_nil, ← signed_nil]
  cases insn
  cases hnew
  cases hnew2
  rfl

theorem readImmediate_eq (n : Nat) :
    insn.readImmediate n = takeWith n (insn.withBoth n false false signedValue) := by
  simp only [readImmediate, getNext, bind_assoc, pure_bind]
  refine bind_congr_of_result fun _ c _ hc => ?_
  obtain ⟨-, rfl⟩ := take_eq_some hc
  rw [withBoth, List.take_length, List.drop_length, Nat.sub_self]
  cases insn
  cases hnew
  cases hnew2
  rfl

omit hnew hnew2 in
theorem readImmediate2_bind {m : Nat} (n : Nat) (got : Bool) :
    (takeWith m (insn.withBoth m got false signedValue) >>= fun s => s.readImmediate2 n) =
      takeWith (m + n) (insn.withBoth m got false signedValue) := by
  have hread : ∀ s : InsnState, s.readImmediate2 n = takeWith n fun bs => { s with
      immediate2 := s.immediate2.assign (signedValue bs) (UInt8.ofNat n)
      nextByte := s.nextByte + n } := fun s => by
    simp only [readImmediate2, getNext, bind_assoc, pure_bind, takeWith]
  simp only [hread]
  rw [takeWith_bind_takeWith]
  refine takeWith_congr fun c hc => ?_
  have hlen : (c.take m).length = m := List.length_take_of_le (by omega)
  simp only [withBoth, List.take_take, Nat.min_self, hlen, hc, Nat.add_sub_cancel_left,
    FieldState.assign, Nat.add_assoc]

theorem readQword_eq :
    insn.readQword = takeWith 8 (insn.withBoth 4 false false signedValue) := by
  rw [readQword, readImmediate_eq hnew hnew2]
  exact readImmediate2_bind 4 false

omit hnew hnew2 in
theorem setGot_withBoth (m n : Nat) (v : Bytes → BitVec 32) :
    (takeWith n (insn.withBoth m false false v) >>= fun s => pure s.setGot) =
      takeWith n (insn.withBoth m true true v) := takeWith_bind_pure _ _ _

theorem getMoffset_eq (hmoffset : hasMoffset insn.attr = true) :
    insn.getMoffset = takeWith (insn.immediateSizes.1 + insn.immediateSizes.2)
      (insn.withBoth insn.immediateSizes.1 true true signedValue) := by
  unfold getMoffset immediateSizes
  simp only [hmoffset, if_true]
  split_ifs
  · rw [readImmediate_eq hnew hnew2]
    exact setGot_withBoth 2 2 signedValue
  · rw [readImmediate_eq hnew hnew2]
    exact setGot_withBoth 4 4 signedValue
  · rw [readQword_eq hnew hnew2]
    exact setGot_withBoth 4 8 signedValue
  · rw [pure_eq_withBoth hnew hnew2]
    exact setGot_withBoth 0 0 signedValue

theorem getImmptr_eq (hsize : immediateSize insn.attr = immPtr) :
    insn.getImmptr = takeWith (insn.kindSizes.1 + insn.kindSizes.2)
      (insn.withBoth insn.kindSizes.1 (insn.opndBytes != 8) (insn.opndBytes != 8)
        fun bs => BitVec.ofNat 32 (leVal bs)) := by
  have hselector : ∀ m, (takeWith m (insn.withBoth m false false signedValue) >>= fun s =>
      s.readSelector >>= fun s => pure s.setGot) =
      takeWith (m + 2) (insn.withBoth m true true fun bs => BitVec.ofNat 32 (leVal bs)) := by
    intro m
    have hread : ∀ s : InsnState, (s.readSelector >>= fun s => pure s.setGot) =
        takeWith 2 fun bs => { s with
          immediate2 := s.immediate2.assign (BitVec.ofNat 32 (leVal bs)) 2
          nextByte := s.nextByte + 2 }.setGot := fun s => by
      simp only [readSelector, getNext, bind_assoc, pure_bind, takeWith]
    simp only [hread]
    rw [takeWith_bind_takeWith]
    refine takeWith_congr fun c hc => ?_
    have hlen : (c.take m).length = m := List.length_take_of_le (by omega)
    simp only [withBoth, List.take_take, Nat.min_self, hlen, hc, Nat.add_sub_cancel_left,
      FieldState.assign, Nat.add_assoc, setGot]
    rfl
  unfold getImmptr
  rw [kindSizes_ptr hsize]
  by_cases h8 : insn.opndBytes = 8
  · simp only [h8, if_true]
    rw [pure_eq_withBoth hnew hnew2]
    rfl
  · simp only [if_neg h8, bne_iff_ne.mpr h8]
    split_ifs
    · rw [readImmediate_eq hnew hnew2]
      exact hselector 2
    · rw [readImmediate_eq hnew hnew2]
      exact hselector 4
    · rw [pure_eq_withBoth hnew hnew2]
      exact hselector 0

theorem getImmv32_eq (hsize : immediateSize insn.attr = immVword32) :
    insn.getImmv32 = takeWith (insn.kindSizes.1 + insn.kindSizes.2)
      (insn.withBoth insn.kindSizes.1 false false signedValue) := by
  unfold getImmv32
  rw [kindSizes_vword32 hsize]
  split_ifs
  · exact readImmediate_eq hnew hnew2 2
  · exact readImmediate_eq hnew hnew2 4
  · exact pure_eq_withBoth hnew hnew2

theorem getImmv_eq (hsize : immediateSize insn.attr = immVword) :
    insn.getImmv = takeWith (insn.kindSizes.1 + insn.kindSizes.2)
      (insn.withBoth insn.kindSizes.1 true true signedValue) := by
  unfold getImmv
  rw [kindSizes_vword hsize]
  split_ifs
  · rw [readImmediate_eq hnew hnew2]
    exact setGot_withBoth 2 2 signedValue
  · rw [readImmediate_eq hnew hnew2]
    exact setGot_withBoth 4 4 signedValue
  · rw [readQword_eq hnew hnew2]
    exact setGot_withBoth 4 8 signedValue
  · rw [pure_eq_withBoth hnew hnew2]
    exact setGot_withBoth 0 0 signedValue

theorem readImmediates_eq (hmoffset : hasMoffset insn.attr = false)
    (himm : hasImmediate insn.attr = true) :
    ∃ got, insn.readImmediates = takeWith (insn.kindSizes.1 + insn.kindSizes.2)
      (insn.withBoth insn.kindSizes.1 got insn.immediate2Got insn.value2) := by
  have hgot : insn.immediate2Got = (immediateSize insn.attr == immVword ||
      immediateSize insn.attr == immPtr && insn.opndBytes != 8) := by
    rw [immediate2Got, hmoffset, himm]
    rfl
  have hval : insn.value2 = if immediateSize insn.attr == immPtr then
      fun bs => BitVec.ofNat 32 (leVal bs) else signedValue := by
    rw [value2, hmoffset, himm]
    rfl
  -- a size that does not depend on the operand size
  have hfixed : ∀ k : Nat × Nat, insn.kindSizes = k → immediateSize insn.attr ≠ immVword →
      immediateSize insn.attr ≠ immPtr →
      insn.readImmediates = takeWith (k.1 + k.2) (insn.withBoth k.1 false false signedValue) →
      ∃ got, insn.readImmediates = takeWith (insn.kindSizes.1 + insn.kindSizes.2)
        (insn.withBoth insn.kindSizes.1 got insn.immediate2Got insn.value2) := by
    intro k hkind hvword hptr heq
    rw [hkind, hgot, hval, beq_false_of_ne hvword, beq_false_of_ne hptr]
    exact ⟨false, heq⟩
  by_cases hptr : immediateSize insn.attr = immPtr
  · refine ⟨insn.opndBytes != 8, ?_⟩
    have heq : insn.readImmediates = insn.getImmptr := by
      rw [readImmediates, hptr]
      rfl
    rw [heq, hgot, hval, hptr]
    exact getImmptr_eq hnew hnew2 hptr
  by_cases hvword : immediateSize insn.attr = immVword
  · refine ⟨true, ?_⟩
    have heq : insn.readImmediates = insn.getImmv := by
      rw [readImmediates, hvword]
      rfl
    rw [heq, hgot, hval, hvword]
    exact getImmv_eq hnew hnew2 hvword
  by_cases hv32 : immediateSize insn.attr = immVword32
  · refine hfixed _ rfl hvword hptr ?_
    have heq : insn.readImmediates = insn.getImmv32 := by
      rw [readImmediates, hv32]
      rfl
    rw [heq]
    exact getImmv32_eq hnew hnew2 hv32
  unfold readImmediates kindSizes at hfixed ⊢
  simp only [if_neg hptr, if_neg hvword, if_neg hv32] at hfixed ⊢
  split_ifs at hfixed ⊢
  · exact hfixed _ rfl hvword hptr (readImmediate_eq hnew hnew2 1)
  · exact hfixed _ rfl hvword hptr (readImmediate_eq hnew hnew2 2)
  · exact hfixed _ rfl hvword hptr (readImmediate_eq hnew hnew2 4)
  · exact hfixed _ rfl hvword hptr (readQword_eq hnew hnew2)
  · exact hfixed _ rfl hvword hptr (pure_eq_withBoth hnew hnew2)

theorem immediateBody_eq
    (hsecond : hasSecondImmediate insn.attr = true → immediateSize insn.attr = immWord) :
    insn.immediateBody =
      takeWith (insn.immediateSizes.1 + insn.immediateSizes.2) insn.withImmediates := by
  unfold immediateBody withImmediates
  cases hmoffset : hasMoffset insn.attr with
  | true =>
    have hgot : insn.immediate2Got = true := by rw [immediate2Got, hmoffset, Bool.true_or]
    have hval : insn.value2 = signedValue := by
      rw [value2, hmoffset]
      rfl
    simp only [if_true]
    rw [getMoffset_eq hnew hnew2 hmoffset, hgot, hval]
    exact takeWith_bind_pure _ _ _
  | false =>
    cases himm : hasImmediate insn.attr with
    | false =>
      have hgot : insn.immediate2Got = false := by
        rw [immediate2Got, hmoffset, himm]
        rfl
      have hval : insn.value2 = signedValue := by
        rw [value2, hmoffset, himm]
        rfl
      have hsizes : insn.immediateSizes = (0, 0) := by
        rw [immediateSizes, hmoffset, himm]
        rfl
      rw [hgot, hval, hsizes]
      simp only [Bool.false_eq_true, if_false, Bool.not_false, if_true]
      rw [pure_eq_withBoth hnew hnew2]
      exact takeWith_bind_pure _ _ _
    | true =>
      cases hscnd : hasSecondImmediate insn.attr with
      | false =>
        have hsizes : insn.immediateSizes = insn.kindSizes := by
          rw [immediateSizes, hmoffset, himm, hscnd]
          rfl
        obtain ⟨got, heq⟩ := readImmediates_eq hnew hnew2 hmoffset himm
        simp only [Bool.false_eq_true, if_false, Bool.not_true]
        rw [heq, hsizes]
        refine (takeWith_bind_congr (k := fun s => pure { s with
          immediate := { s.immediate with got := true } }) fun c => ?_).trans
            (takeWith_bind_pure _ _ _)
        exact if_neg (by rw [withBoth, hscnd]; decide)
      | true =>
        have hword := hsecond hscnd
        have hgot : insn.immediate2Got = false := by
          rw [immediate2Got, hmoffset, hword]
          cases hasImmediate insn.attr <;> rfl
        have hval : insn.value2 = signedValue := by
          rw [value2, hword]
          cases hasMoffset insn.attr <;> cases hasImmediate insn.attr <;> rfl
        have hsizes : insn.immediateSizes = (2, 1) := by
          rw [immediateSizes, hmoffset, himm, hscnd, kindSizes, hword]
          rfl
        have heq : insn.readImmediates = insn.readImmediate 2 := by
          rw [readImmediates, hword]
          rfl
        simp only [Bool.false_eq_true, if_false, Bool.not_true]
        rw [heq, readImmediate_eq hnew hnew2, hgot, hval, hsizes]
        refine (takeWith_bind_congr (k := fun s => s.readImmediate2 1 >>= fun s => pure { s with
          immediate := { s.immediate with got := true } }) fun c => ?_).trans ?_
        · exact if_pos hscnd
        · rw [← bind_assoc, readImmediate2_bind]
          exact takeWith_bind_pure _ _ _

end

end InsnState

end RtBackup
