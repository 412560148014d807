import RtBackup.InatTables

/-!
# The search of attributes (`inat.h`, `inat.c`)

Results:
1. `escapeDepth_escape`: an opcode has at most two escapes.
2. `getOpcodeAttribute_allows`, `getEscapeAttribute_allows`,
   `getAvxAttribute_allows`: how much may follow an opcode.
-/

namespace RtBackup

namespace Inat

/-! ## Attribute checking functions -/

def isLegacyPrefix (attr : InsnAttr) : Bool :=
  attr &&& pfxMask != 0 && attr &&& pfxMask ≤ lgcpfxMax

def isAddressSizePrefix (attr : InsnAttr) : Bool := attr &&& pfxMask == pfxAddrsz

def isOperandSizePrefix (attr : InsnAttr) : Bool := attr &&& pfxMask == pfxOpndsz

def isRexPrefix (attr : InsnAttr) : Bool := attr &&& pfxMask == pfxRex

def lastPrefixId (attr : InsnAttr) : Nat :=
  if lstpfxMax < attr &&& pfxMask then 0 else (attr &&& pfxMask).toNat

def isVexPrefix (attr : InsnAttr) : Bool :=
  attr &&& pfxMask == pfxVex2 || attr &&& pfxMask == pfxVex3

def isVex3Prefix (attr : InsnAttr) : Bool := attr &&& pfxMask == pfxVex3

def isEscape (attr : InsnAttr) : Bool := attr &&& escMask != 0

def escapeId (attr : InsnAttr) : Nat := ((attr &&& escMask) >>> escOffs).toNat

def isGroup (attr : InsnAttr) : Bool := attr &&& grpMask != 0

def groupId (attr : InsnAttr) : Nat := ((attr &&& grpMask) >>> grpOffs).toNat

def groupCommonAttribute (attr : InsnAttr) : InsnAttr := attr &&& ~~~grpMask

def hasImmediate (attr : InsnAttr) : Bool := attr &&& immMask != 0

def immediateSize (attr : InsnAttr) : InsnAttr := (attr &&& immMask) >>> immOffs

def hasModrm (attr : InsnAttr) : Bool := attr &&& modrm != 0

def isForce64 (attr : InsnAttr) : Bool := attr &&& force64 != 0

def hasSecondImmediate (attr : InsnAttr) : Bool := attr &&& scndimm != 0

def hasMoffset (attr : InsnAttr) : Bool := attr &&& moffset != 0

def hasVariant (attr : InsnAttr) : Bool := attr &&& variant != 0

def acceptVex (attr : InsnAttr) : Bool := attr &&& vexok != 0

def mustVex (attr : InsnAttr) : Bool := attr &&& vexonly != 0

/-! ## Attribute search APIs -/

/-- `X86_MODRM_REG`. -/
def modrmReg (modrm : UInt8) : UInt8 := (modrm &&& 0x38) >>> 3

/-- `table[key]`. -/
def Table.get (table : Table) (key : UInt8) : InsnAttr := (table.lookup key.toNat).getD 0

def getOpcodeAttribute (opcode : UInt8) : InsnAttr := primaryTable.get opcode

/-- The last prefix as an index of the arrays of tables. -/
def prefixIndex (lastPfx : UInt8) : Nat :=
  if lastPfx ≠ 0 then lastPrefixId (getOpcodeAttribute lastPfx) else 0

/-- The table that is read for the entry `key`: the one of the last prefix where the
entry of the plain table has variants. -/
def chooseTable (tables : Nat → Nat → Option Table) (n m : Nat) (key : UInt8) : Option Table :=
  match tables n 0 with
  | none => none
  | some table => if hasVariant (table.get key) && m != 0 then tables n m else some table

def getEscapeAttribute (opcode lastPfx : UInt8) (escAttr : InsnAttr) : InsnAttr :=
  match chooseTable escapeTables (escapeId escAttr) (prefixIndex lastPfx) opcode with
  | none => 0
  | some table => table.get opcode

def getGroupAttribute (modrm lastPfx : UInt8) (grpAttr : InsnAttr) : InsnAttr :=
  match chooseTable groupTables (groupId grpAttr) (prefixIndex lastPfx) (modrmReg modrm) with
  | none => groupCommonAttribute grpAttr
  | some table => table.get (modrmReg modrm) ||| groupCommonAttribute grpAttr

/-- `X86_VEX_M_MAX`. -/
def vexMMax : UInt8 := 0x1f

def getAvxAttribute (opcode vexM vexP : UInt8) : InsnAttr :=
  if vexMMax < vexM ∨ lstpfxMax.toNat < vexP.toNat then 0
  else
    match avxTables vexM.toNat vexP.toNat with
    | none => 0
    | some table => table.get opcode

/-! ## What is found in a table -/

theorem Table.get_cases (table : Table) (key : UInt8) :
    table.get key = 0 ∨ (key.toNat, table.get key) ∈ table := by
  unfold Table.get
  cases hfind : table.lookup key.toNat with
  | none => exact .inl rfl
  | some attr =>
    obtain ⟨l₁, l₂, rfl, -⟩ := List.lookup_eq_some_iff.mp hfind
    exact .inr (by simp)

theorem Table.get_of_forall {P : InsnAttr → Prop} {table : Table} (h : ∀ e ∈ table, P e.2)
    (hzero : P 0) (key : UInt8) : P (table.get key) := by
  rcases table.get_cases key with heq | hmem
  · rwa [heq]
  · exact h _ hmem

theorem chooseTable_eq_some {tables : Nat → Nat → Option Table} {n m : Nat} {key : UInt8}
    {table : Table} (h : chooseTable tables n m key = some table) :
    ∃ m' ≤ m, tables n m' = some table := by
  unfold chooseTable at h
  cases hplain : tables n 0 with
  | none =>
    rw [hplain] at h
    cases h
  | some plain =>
    rw [hplain] at h
    simp only at h
    split at h
    · exact ⟨m, Nat.le_refl m, h⟩
    · cases h
      exact ⟨0, Nat.zero_le m, hplain⟩

theorem prefixIndex_le (lastPfx : UInt8) : prefixIndex lastPfx ≤ 3 := by
  unfold prefixIndex lastPrefixId
  split
  · split
    · decide
    · next hle => exact BitVec.le_def.mp (BitVec.not_lt.mp hle)
  · decide

theorem getEscapeAttribute_of_forall {P : InsnAttr → Prop} {escAttr : InsnAttr}
    (h : ∀ m table, escapeTables (escapeId escAttr) m = some table → ∀ e ∈ table, P e.2)
    (hzero : P 0) (opcode lastPfx : UInt8) : P (getEscapeAttribute opcode lastPfx escAttr) := by
  unfold getEscapeAttribute
  split
  · exact hzero
  · next table hchoose =>
    obtain ⟨m, -, htable⟩ := chooseTable_eq_some hchoose
    exact table.get_of_forall (h m table htable) hzero opcode

theorem getGroupAttribute_of_forall {P : InsnAttr → Prop} {grpAttr : InsnAttr}
    (h : ∀ m ≤ 3, ∀ e ∈ (groupTables (groupId grpAttr) m).getD [],
      P (e.2 ||| groupCommonAttribute grpAttr))
    (hcommon : P (groupCommonAttribute grpAttr)) (modrm lastPfx : UInt8) :
    P (getGroupAttribute modrm lastPfx grpAttr) := by
  unfold getGroupAttribute
  split
  · exact hcommon
  · next table hchoose =>
    obtain ⟨m, hm, htable⟩ := chooseTable_eq_some hchoose
    refine table.get_of_forall (P := fun a => P (a ||| groupCommonAttribute grpAttr))
      (fun e he => h m (Nat.le_trans hm (prefixIndex_le lastPfx)) e ?_) ?_ _
    · rwa [htable]
    · simpa using hcommon

/-- An entry of a group has the ModRM byte that selected it. -/
theorem hasModrm_getGroupAttribute {attr : InsnAttr} (h : hasModrm attr = true)
    (modrm lastPfx : UInt8) : hasModrm (getGroupAttribute modrm lastPfx attr) = true := by
  have hcommon : groupCommonAttribute attr &&& Inat.modrm = attr &&& Inat.modrm := by
    have hmask : ~~~grpMask &&& Inat.modrm = Inat.modrm := by decide
    rw [groupCommonAttribute, BitVec.and_assoc, hmask]
  have hne : attr &&& Inat.modrm ≠ 0 := bne_iff_ne.mp h
  unfold getGroupAttribute hasModrm
  rw [bne_iff_ne]
  split
  · rwa [hcommon]
  · rw [BitVec.and_or_distrib_right, hcommon]
    exact fun hzero => hne (BitVec.or_eq_zero_iff.mp hzero).2

/-! ## Escapes -/

theorem escapeId_eq_zero {attr : InsnAttr} (h : escapeId attr = 0) : isEscape attr = false := by
  have hzero : (attr &&& escMask) >>> escOffs = 0 := BitVec.eq_of_toNat_eq h
  rw [isEscape, bne_eq_false_iff_eq]
  refine BitVec.eq_of_getLsbD_eq fun i hi => ?_
  by_cases hlow : i < escOffs
  · have hmask : ∀ i < escOffs, escMask.getLsbD i = false := by decide
    rw [BitVec.getLsbD_and, hmask i hlow, Bool.and_false]
    exact BitVec.getLsbD_zero.symm
  · have hbit := congrArg (BitVec.getLsbD · (i - escOffs)) hzero
    simp only [BitVec.getLsbD_ushiftRight] at hbit
    rw [Nat.add_sub_cancel' (Nat.le_of_not_lt hlow)] at hbit
    exact hbit.trans (BitVec.getLsbD_zero.trans BitVec.getLsbD_zero.symm)

/-- How many more opcode bytes there may be. -/
def escapeDepth (attr : InsnAttr) : Nat :=
  match escapeId attr with
  | 0 => 0
  | 1 => 2
  | _ => 1

theorem isEscape_of_depth {attr : InsnAttr} (h : escapeDepth attr = 0) : isEscape attr = false := by
  unfold escapeDepth at h
  split at h
  · next hid => exact escapeId_eq_zero hid
  · cases h
  · cases h

theorem escapeDepth_le (attr : InsnAttr) : escapeDepth attr ≤ 2 := by
  unfold escapeDepth
  split <;> decide

/-- The opcode map of an escape has only escapes that go less deep. -/
theorem escapeDepth_escape {attr : InsnAttr} (h : isEscape attr = true) (opcode lastPfx : UInt8) :
    escapeDepth (getEscapeAttribute opcode lastPfx attr) < escapeDepth attr := by
  have hid : escapeId attr ≠ 0 := fun hzero => by
    rw [escapeId_eq_zero hzero] at h
    cases h
  have htables : ∀ n m table, escapeTables n m = some table →
      ∀ e ∈ table, n = 1 ∧ escapeDepth e.2 ≤ 1 ∨ escapeDepth e.2 = 0 := by
    intro n m table htable
    unfold escapeTables at htable
    split at htable
    all_goals cases htable
    all_goals decide +kernel
  have hfound := getEscapeAttribute_of_forall
    (P := fun a => escapeId attr = 1 ∧ escapeDepth a ≤ 1 ∨ escapeDepth a = 0)
    (htables (escapeId attr)) (.inr rfl) opcode lastPfx
  rcases hfound with ⟨hone, hle⟩ | hzero
  · rw [escapeDepth.eq_def attr, hone]
    exact Nat.lt_succ_of_le hle
  · rw [hzero]
    refine Nat.pos_of_ne_zero fun hdepth => ?_
    rw [isEscape_of_depth hdepth] at h
    cases h

/-! ## Prefixes -/

/-- A test of the attribute that only one entry of the table passes. -/
theorem getOpcodeAttribute_iff {p : InsnAttr → Bool} {n b : UInt8} (hzero : p 0 = false)
    (htable : ∀ e ∈ primaryTable, p e.2 = true → e.1 = n.toNat)
    (hn : p (getOpcodeAttribute n) = true) : p (getOpcodeAttribute b) = true ↔ b = n := by
  refine ⟨fun h => UInt8.toNat_inj.mp ?_, fun h => by rwa [h]⟩
  rcases primaryTable.get_cases b with heq | hmem
  · rw [getOpcodeAttribute, heq, hzero] at h
    cases h
  · exact htable _ hmem h

theorem isAddressSizePrefix_iff {b : UInt8} :
    isAddressSizePrefix (getOpcodeAttribute b) = true ↔ b = 0x67 :=
  getOpcodeAttribute_iff rfl (by decide +kernel) (by decide +kernel)

theorem isOperandSizePrefix_iff {b : UInt8} :
    isOperandSizePrefix (getOpcodeAttribute b) = true ↔ b = 0x66 :=
  getOpcodeAttribute_iff rfl (by decide +kernel) (by decide +kernel)

theorem ne_zero_of_legacy {b : UInt8} (h : isLegacyPrefix (getOpcodeAttribute b) = true) :
    b ≠ 0 := by
  rintro rfl
  exact absurd h (by decide +kernel)

/-- The bytes of a VEX prefix are opcodes with a ModRM byte too. -/
theorem getOpcodeAttribute_vex {b : UInt8} (h : isVexPrefix (getOpcodeAttribute b) = true) :
    b ≠ 0 ∧ hasModrm (getOpcodeAttribute b) = true ∧ isEscape (getOpcodeAttribute b) = false ∧
      mustVex (getOpcodeAttribute b) = false := by
  refine ⟨fun hzero => ?_, ?_⟩
  · rw [hzero] at h
    exact absurd h (by decide +kernel)
  · rcases primaryTable.get_cases b with heq | hmem
    · rw [getOpcodeAttribute, heq] at h
      cases h
    · have htable : ∀ e ∈ primaryTable, isVexPrefix e.2 = true →
          hasModrm e.2 = true ∧ isEscape e.2 = false ∧ mustVex e.2 = false := by
        decide +kernel
      exact htable _ hmem h

/-! ## How much an attribute allows -/

/-- The most bytes that an immediate of this size has. -/
def immBound (size : InsnAttr) : Nat :=
  if size = immByte then 1
  else if size = immWord then 2
  else if size = immDword ∨ size = immVword32 then 4
  else if size = immPtr then 6
  else if size = immQword ∨ size = immVword then 8
  else 0

/-- The most bytes behind the opcode of an instruction with this attribute. -/
def tailBound (attr : InsnAttr) : Nat :=
  (if hasModrm attr then 6 else 0) +
    (if hasMoffset attr then 8 else immBound (immediateSize attr)) +
    if hasSecondImmediate attr then 1 else 0

/-- At most `k` bytes follow the opcode, and a second immediate follows a word. -/
def Allows (k : Nat) (attr : InsnAttr) : Prop :=
  tailBound attr ≤ k ∧ (hasSecondImmediate attr = true → immediateSize attr = immWord)

instance allowsDecidable (k : Nat) (attr : InsnAttr) : Decidable (Allows k attr) :=
  inferInstanceAs (Decidable (_ ∧ _))

/-- The same for all the entries of a group. -/
def GroupAllows (k : Nat) (attr : InsnAttr) : Prop :=
  Allows k attr ∧ Allows k (groupCommonAttribute attr) ∧
    ∀ m ≤ 3, ∀ e ∈ (groupTables (groupId attr) m).getD [], Allows k (e.2 ||| groupCommonAttribute attr)

instance groupAllowsDecidable (k : Nat) (attr : InsnAttr) : Decidable (GroupAllows k attr) :=
  inferInstanceAs (Decidable (_ ∧ _))

theorem GroupAllows.resolve {k : Nat} {attr : InsnAttr} (h : GroupAllows k attr)
    (modrm lastPfx : UInt8) : Allows k (getGroupAttribute modrm lastPfx attr) :=
  getGroupAttribute_of_forall h.2.2 h.2.1 modrm lastPfx

theorem Allows.mono {k l : Nat} {attr : InsnAttr} (h : Allows k attr) (hle : k ≤ l) :
    Allows l attr := ⟨Nat.le_trans h.1 hle, h.2⟩

theorem GroupAllows.mono {k l : Nat} {attr : InsnAttr} (h : GroupAllows k attr) (hle : k ≤ l) :
    GroupAllows l attr :=
  ⟨h.1.mono hle, h.2.1.mono hle, fun m hm e he => (h.2.2 m hm e he).mono hle⟩

theorem getOpcodeAttribute_allows (opcode : UInt8) : GroupAllows 10 (getOpcodeAttribute opcode) :=
  Table.get_of_forall (by decide +kernel) (by decide +kernel) opcode

theorem escapeTables_allow {n m : Nat} {table : Table} (h : escapeTables n m = some table) :
    ∀ e ∈ table, GroupAllows 7 e.2 := by
  unfold escapeTables at h
  split at h
  all_goals cases h
  all_goals decide +kernel

theorem getEscapeAttribute_allows (opcode lastPfx : UInt8) (escAttr : InsnAttr) :
    GroupAllows 7 (getEscapeAttribute opcode lastPfx escAttr) :=
  getEscapeAttribute_of_forall (fun _ _ => escapeTables_allow) (by decide +kernel) opcode lastPfx

/-- A VEX prefix selects from the same tables. -/
theorem avxTables_eq (m p : Nat) : avxTables m p = escapeTables m p := by
  unfold avxTables escapeTables
  split <;> rfl

theorem getAvxAttribute_allows (opcode vexM vexP : UInt8) :
    GroupAllows 7 (getAvxAttribute opcode vexM vexP) := by
  have hzero : GroupAllows 7 0 := by decide +kernel
  unfold getAvxAttribute
  split
  · exact hzero
  · split
    · exact hzero
    · next table htable =>
      rw [avxTables_eq] at htable
      exact table.get_of_forall (escapeTables_allow htable) hzero opcode

end Inat

end RtBackup
