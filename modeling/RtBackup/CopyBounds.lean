import RtBackup.Lib.Strides
import RtBackup.Relocation

/-!
# The buffer of a copy (`hijacks.c`)

The buffer for the copy of a function has the size of the function. The loop that
fills it does not look at that size. It goes on to the last byte of the function that
is not 0, and the instruction that has this byte may end behind the function. A fix-up
writes four bytes, whatever the operand has.

Results:
1. `symbolHijack_stores`: the stores that are listed here are what the loop does.
2. `copyInsns_rounds`: the loop copies the instructions of a walk, from the start of
   the function to the first one that is not in front of the last byte.
3. `copy_fits_iff`: the functions whose copy fits.
-/

namespace RtBackup

open AddressSpace ByteFile Strides

variable {w : Nat}

/-! ## The stores of the copy loop -/

/-- The offset of the operand that `copy_and_fixup_insn` fills in, and the address that
it leads to. -/
def fixup (kaddr : BitVec w) (srcInsn : Insn) (func : Kernsym w) : Option (Nat × BitVec w) :=
  if srcInsn.CallOrJmp then
    let addr := codeAddrFromOffset kaddr srcInsn.length.toNat srcInsn.immediate.value
    if func.contains addr then none else some (srcInsn.offsetImmediate, addr)
  else if w = 64 ∧ srcInsn.ripRelative then
    let addr := codeAddrFromOffset kaddr srcInsn.length.toNat srcInsn.displacement.value
    if func.contains addr then none else some (srcInsn.offsetDisplacement, addr)
  else none

/-- A round of the copy loop. -/
structure CopyRound (w : Nat) where
  kaddr : BitVec w
  srcInsn : Insn
  dest : BitVec w

def CopyRound.stores (text : Image w) (func : Kernsym w) (r : CopyRound w) :
    List (BitVec w × Bytes) :=
  (r.dest, bytesAt text r.kaddr r.srcInsn.length.toNat) ::
    (fixup r.kaddr r.srcInsn func).toList.map fun (offset, addr) =>
      (r.dest + BitVec.ofNat w offset,
        u32Bytes (codeOffsetFromAddr r.dest r.srcInsn.length.toNat addr))

/-- The rounds of `copyInsns`. -/
def copyRounds (decode : BitVec w → Insn) (endAddr : BitVec w) :
    Nat → BitVec w → BitVec w → List (CopyRound w)
  | 0, _, _ => []
  | fuel + 1, origAddr, destAddr =>
    if origAddr < endAddr ∧ (decode origAddr).length ≠ 0 then
      let len := BitVec.ofNat w (decode origAddr).length.toNat
      ⟨origAddr, decode origAddr, destAddr⟩ ::
        copyRounds decode endAddr fuel (origAddr + len) (destAddr + len)
    else []

theorem overwriteAll_append (image : Image w) (stores stores' : List (BitVec w × Bytes)) :
    overwriteAll image (stores ++ stores') = overwriteAll (overwriteAll image stores) stores' :=
  List.foldl_append

theorem copyAndFixupInsn_eq (text : Image w) (r : CopyRound w) (func : Kernsym w)
    (copies : Image w) :
    copyAndFixupInsn text r.kaddr r.srcInsn r.dest func copies =
      overwriteAll copies (r.stores text func) := by
  unfold copyAndFixupInsn CopyRound.stores fixup Insn.CallOrJmp
  simp only
  split
  · split
    · rfl
    · rfl
  · split
    · split
      · rfl
      · rfl
    · rfl

theorem copyInsns_eq {decode : BitVec w → Insn} {text : Image w} {func : Kernsym w}
    {endAddr : BitVec w} {fuel : Nat} {origAddr destAddr : BitVec w} {copies copies' : Image w}
    {r : Option (BitVec w)}
    (h : copyInsns decode text func endAddr fuel origAddr destAddr copies = some (r, copies')) :
    copies' = overwriteAll copies
      ((copyRounds decode endAddr fuel origAddr destAddr).flatMap (·.stores text func)) := by
  induction fuel generalizing origAddr destAddr copies with
  | zero => cases h
  | succ fuel ih =>
    rw [copyRounds]
    rcases copyInsns_succ_cases h with ⟨hge, -, rfl⟩ | ⟨-, hlen, -, rfl⟩ | ⟨hlt, hlen, -, h⟩
    · rw [if_neg fun hround => hge hround.1]
      rfl
    · rw [if_neg fun hround => hround.2 hlen]
      rfl
    · rw [ih h, if_pos ⟨hlt, hlen⟩, List.flatMap_cons, overwriteAll_append, ← copyAndFixupInsn_eq]

/-! ## The instructions of a function -/

/-- The length of the instruction at each byte of the function, 0 for none. -/
def insnLen (decode : BitVec w → Insn) (addr : BitVec w) (p : Nat) : Nat :=
  (decode (addr + BitVec.ofNat w p)).length.toNat

/-- The round that copies the instruction at the `p`-th byte. -/
def Kernsym.round (decode : BitVec w → Insn) (sym : Kernsym w) (p : Nat) : CopyRound w where
  kaddr := sym.addr + BitVec.ofNat w p
  srcInsn := decode (sym.addr + BitVec.ofNat w p)
  dest := sym.newAddr + BitVec.ofNat w p

/-- The rounds from the `p`-th byte on. -/
def Kernsym.rounds (decode : BitVec w → Insn) (endAddr : BitVec w) (sym : Kernsym w)
    (fuel p : Nat) : List (CopyRound w) :=
  copyRounds decode endAddr fuel (sym.addr + BitVec.ofNat w p) (sym.newAddr + BitVec.ofNat w p)

/-- The rounds copy one instruction behind the other, from the `p`-th byte to the
`n`-th. -/
def Consecutive (decode : BitVec w → Insn) (sym : Kernsym w) : List (CopyRound w) → Nat → Nat → Prop
  | [], p, n => p = n
  | r :: rs, p, n =>
    (r = sym.round decode p ∧ r.srcInsn.length ≠ 0) ∧
      Consecutive decode sym rs (p + r.srcInsn.length.toNat) n

section

variable {decode : BitVec w → Insn} {text : Image w} {sym func : Kernsym w} {endAddr : BitVec w}
  {limit : Nat}

theorem insnLen_ne_zero {a : BitVec w} {p : Nat} (ha : a = sym.addr + BitVec.ofNat w p)
    (h : (decode a).length ≠ 0) : insnLen decode sym.addr p ≠ 0 := by
  rw [insnLen, ← ha]
  exact fun h0 => h (UInt8.toNat_inj.mp h0)

theorem rounds_insn {p : Nat} (hlt : sym.addr + BitVec.ofNat w p < endAddr)
    (hlen : (decode (sym.addr + BitVec.ofNat w p)).length ≠ 0) (fuel : Nat) :
    sym.rounds decode endAddr (fuel + 1) p =
      sym.round decode p :: sym.rounds decode endAddr fuel (p + insnLen decode sym.addr p) := by
  rw [Kernsym.rounds, copyRounds, if_pos ⟨hlt, hlen⟩, Kernsym.rounds, ← add_ofNat_add,
    ← add_ofNat_add]
  rfl

theorem rounds_end {p : Nat} (hge : ¬sym.addr + BitVec.ofNat w p < endAddr) (fuel : Nat) :
    sym.rounds decode endAddr (fuel + 1) p = [] := by
  rw [Kernsym.rounds, copyRounds, if_neg fun hround => hge hround.1]

/-- The loop from the `p`-th byte on copies the instructions of the walk up to the
limit. -/
theorem copyInsns_rounds (hw : 2 ^ 8 ≤ 2 ^ w) (hend : endAddr.toNat = sym.addr.toNat + limit)
    {fuel p : Nat} {d : BitVec w} {copies copies' : Image w} (hp : sym.addr.toNat + p < 2 ^ w)
    (h : copyInsns decode text func endAddr fuel (sym.addr + BitVec.ofNat w p)
      (sym.newAddr + BitVec.ofNat w p) copies = some (some d, copies')) :
    ∃ n, d = sym.newAddr + BitVec.ofNat w n ∧ sym.addr.toNat + n < 2 ^ w ∧
      Stops (insnLen decode sym.addr) limit p n ∧
      Consecutive decode sym (sym.rounds decode endAddr fuel p) p n ∧
      ∀ r, r ∈ sym.rounds decode endAddr fuel p ↔
        ∃ q, Walk (insnLen decode sym.addr) p q ∧ q < limit ∧ r = sym.round decode q := by
  induction fuel generalizing p copies with
  | zero => cases h
  | succ fuel ih =>
    have hval : (sym.addr + BitVec.ofNat w p).toNat = sym.addr.toNat + p := by
      rw [BitVec.toNat_add, BitVec.toNat_ofNat, Nat.add_mod_mod, Nat.mod_eq_of_lt hp]
    have hlimit : sym.addr + BitVec.ofNat w p < endAddr ↔ p < limit := by
      rw [BitVec.lt_def, hval, hend]
      exact Nat.add_lt_add_iff_left
    rcases copyInsns_succ_cases h with ⟨hge, hd, -⟩ | ⟨-, -, hnone, -⟩ | ⟨hlt, hlen, hwrap, h⟩
    · obtain rfl := Option.some.inj hd
      rw [rounds_end hge]
      have hdone : limit ≤ p := Nat.not_lt.mp fun hlt => hge (hlimit.mpr hlt)
      refine ⟨p, rfl, hp, .here hdone, rfl, fun r => iff_of_false List.not_mem_nil ?_⟩
      rintro ⟨q, hq, hlast, -⟩
      exact absurd (Nat.le_trans hdone hq.le) (Nat.not_le.mpr hlast)
    · cases hnone
    · have hbyte := UInt8.toNat_lt (decode (sym.addr + BitVec.ofNat w p)).length
      have hnext := toNat_add_of_not_lt (Nat.lt_of_lt_of_le hbyte hw) hwrap
      have hp' : sym.addr.toNat + (p + insnLen decode sym.addr p) < 2 ^ w := by
        rw [← Nat.add_assoc, ← hval]
        exact hnext ▸ BitVec.isLt _
      have hne : insnLen decode sym.addr p ≠ 0 := insnLen_ne_zero rfl hlen
      rw [add_ofNat_add, add_ofNat_add] at h
      rw [rounds_insn hlt hlen]
      obtain ⟨n, hd, hn, hstops, hconsecutive, hmem⟩ := ih hp' h
      refine ⟨n, hd, hn, .stride (hlimit.mp hlt) hne hstops,
        ⟨⟨rfl, hlen⟩, hconsecutive⟩, fun r => ?_⟩
      rw [List.mem_cons, hmem]
      constructor
      · rintro (rfl | ⟨q, hq, hlast, rfl⟩)
        · exact ⟨p, .here, hlimit.mp hlt, rfl⟩
        · exact ⟨q, .stride hne hq, hlast, rfl⟩
      · rintro ⟨q, hq, hlast, rfl⟩
        cases hq with
        | here => exact .inl rfl
        | stride _ hq => exact .inr ⟨q, hq, hlast, rfl⟩

end

/-! ## The last byte that is not 0 -/

theorem lt_trimZeros {text : Image w} {addr : BitVec w} {n i : Nat} (hi : i < n)
    (hne : text (addr + BitVec.ofNat w i) ≠ 0) : i < trimZeros text addr n := by
  induction n with
  | zero => exact absurd hi (Nat.not_lt_zero i)
  | succ n ih =>
    rw [trimZeros]
    split
    · next hzero =>
      rcases Nat.lt_succ_iff_lt_or_eq.mp hi with hlt | rfl
      · exact ih hlt
      · exact absurd hzero hne
    · exact hi

theorem toNat_imageEnd {text : Image w} {addr size : BitVec w}
    (hfits : addr.toNat + size.toNat < 2 ^ w) :
    (imageEnd text addr size).toNat = addr.toNat + trimZeros text addr size.toNat := by
  have hsum : ∀ n ≤ size.toNat, (addr.toNat + n) % 2 ^ w = addr.toNat + n := fun n hn =>
    Nat.mod_eq_of_lt (Nat.lt_of_le_of_lt (Nat.add_le_add_left hn _) hfits)
  have hle := trimZeros_le text addr size.toNat
  unfold imageEnd
  split
  · rw [BitVec.toNat_add, BitVec.toNat_ofNat, Nat.add_mod_mod, hsum _ hle]
  · next hge =>
    rw [BitVec.lt_def, BitVec.toNat_add, hsum _ (Nat.le_refl _)] at hge
    rw [BitVec.toNat_add, hsum _ (Nat.le_refl _)]
    omega

/-- A function in front of the next symbol does not go around the address space. -/
theorem toNat_add_size {a : SymbolAnswer w} (h : a.addr ≤ a.endAddr) :
    a.addr.toNat + a.size.toNat < 2 ^ w := by
  have hend := a.endAddr.isLt
  rw [SymbolAnswer.size, BitVec.toNat_sub_of_le h]
  rw [BitVec.le_def] at h
  omega

/-! ## Copies that fit -/

theorem length_noStartBytes : (List.replicate opJmpSize (0 : UInt8)).length = opJmpSize :=
  List.length_replicate

/-- What `find_symbol_address` makes of its answer. -/
def SymbolAnswer.func (a : SymbolAnswer w) : Kernsym w where
  addr := a.addr
  endAddr := a.endAddr
  size := a.size
  origStartBytes_length := length_noStartBytes

/-- The rounds that `symbol_hijack` has made for a function. -/
def Kernsym.allRounds (decode : BitVec w → Insn) (text : Image w) (sym : Kernsym w) :
    List (CopyRound w) :=
  sym.rounds decode (imageEnd text sym.addr sym.size) (sym.size.toNat + 1) 0

/-- The stores are inside the block of `size` bytes, and the instructions follow one
another from the start of the function to its last byte that is not 0. -/
structure CopyFits (decode : BitVec w → Insn) (text : Image w) (sym : Kernsym w) : Prop where
  inside : ∀ r ∈ sym.allRounds decode text, ∀ store ∈ r.stores text sym,
    block store.1 store.2.length ⊆ block sym.newAddr sym.size.toNat
  newSize_le : sym.newSize ≤ sym.size
  consecutive : Consecutive decode sym (sym.allRounds decode text) 0 sym.newSize.toNat
  covers : ∀ i < sym.size.toNat, text (sym.addr + BitVec.ofNat w i) ≠ 0 → i < sym.newSize.toNat

/-- An instruction ends behind the last byte that is not 0 and inside the function, and
the four bytes that a fix-up writes end inside the function. -/
@[mk_iff]
structure EndsInside (decode : BitVec w → Insn) (text : Image w) (func : Kernsym w) : Prop where
  ends : ∃ b, Walk (insnLen decode func.addr) 0 b ∧
    trimZeros text func.addr func.size.toNat ≤ b ∧ b ≤ func.size.toNat
  operands : ∀ p, Walk (insnLen decode func.addr) 0 p →
    p < trimZeros text func.addr func.size.toNat → ∀ offset addr,
      fixup (func.addr + BitVec.ofNat w p) (decode (func.addr + BitVec.ofNat w p)) func =
        some (offset, addr) → p + offset + 4 ≤ func.size.toNat

section

variable {sym func : Kernsym w}

theorem fixup_congr (haddr : func.addr = sym.addr) (hsize : func.size = sym.size)
    (kaddr : BitVec w) (srcInsn : Insn) : fixup kaddr srcInsn func = fixup kaddr srcInsn sym := by
  have hcontains : ∀ a, func.contains a = sym.contains a := by
    intro a
    rw [Kernsym.contains, Kernsym.contains, haddr, hsize]
  simp only [fixup, hcontains]

theorem fixup_offset_lt {kaddr addr : BitVec w} {srcInsn : Insn} {offset : Nat}
    (h : fixup kaddr srcInsn func = some (offset, addr)) : offset < 2 ^ 11 := by
  have hbytes : srcInsn.offsetImmediate < 2 ^ 11 := by
    have h₁ := UInt8.toNat_lt srcInsn.prefixes.nbytes
    have h₂ := UInt8.toNat_lt srcInsn.rex.nbytes
    have h₃ := UInt8.toNat_lt srcInsn.vex.nbytes
    have h₄ := UInt8.toNat_lt srcInsn.opcode.nbytes
    have h₅ := UInt8.toNat_lt srcInsn.modrm.nbytes
    have h₆ := UInt8.toNat_lt srcInsn.sib.nbytes
    have h₇ := UInt8.toNat_lt srcInsn.displacement.nbytes
    rw [Insn.offsetImmediate, Insn.offsetDisplacement]
    omega
  have hdisplacement : srcInsn.offsetDisplacement < 2 ^ 11 :=
    Nat.lt_of_le_of_lt (Nat.le_add_right _ _) hbytes
  simp only [fixup] at h
  split at h
  · split at h
    · cases h
    · cases h
      exact hbytes
  · split at h
    · split at h
      · cases h
      · cases h
        exact hdisplacement
    · cases h

theorem endsInside_congr {decode : BitVec w → Insn} {text : Image w}
    (haddr : func.addr = sym.addr) (hsize : func.size = sym.size) :
    EndsInside decode text func ↔ EndsInside decode text sym := by
  rw [endsInside_iff, endsInside_iff, haddr, hsize]
  simp only [fixup_congr haddr hsize]

theorem stores_congr (haddr : func.addr = sym.addr) (hsize : func.size = sym.size)
    (text : Image w) (r : CopyRound w) : r.stores text func = r.stores text sym := by
  rw [CopyRound.stores, CopyRound.stores, fixup_congr haddr hsize]

/-- What a run of the loop says about the copy that it made. -/
theorem copyFits_iff {decode : BitVec w → Insn} {text : Image w} {n : Nat}
    (hroom : sym.size.toNat + 2 ^ 12 ≤ 2 ^ w) (hnewSize : sym.newSize.toNat = n)
    (hstops : Stops (insnLen decode sym.addr) (trimZeros text sym.addr sym.size.toNat) 0 n)
    (hconsecutive : Consecutive decode sym (sym.allRounds decode text) 0 n)
    (hmem : ∀ r, r ∈ sym.allRounds decode text ↔
      ∃ q, Walk (insnLen decode sym.addr) 0 q ∧ q < trimZeros text sym.addr sym.size.toNat ∧
        r = sym.round decode q) :
    CopyFits decode text sym ↔ EndsInside decode text sym := by
  have hsize : sym.newSize ≤ sym.size ↔ n ≤ sym.size.toNat := by rw [BitVec.le_def, hnewSize]
  constructor
  · intro hfits
    refine ⟨hstops.le_iff.mp (hsize.mp hfits.newSize_le), fun p hp hlast offset addr hfix => ?_⟩
    have hround := (hmem _).mpr ⟨p, hp, hlast, rfl⟩
    have hstore : (sym.newAddr + BitVec.ofNat w p + BitVec.ofNat w offset,
        u32Bytes (codeOffsetFromAddr (sym.newAddr + BitVec.ofNat w p)
          (insnLen decode sym.addr p) addr)) ∈ (sym.round decode p).stores text sym := by
      refine List.mem_cons_of_mem _ (List.mem_map.mpr ⟨(offset, addr), ?_, rfl⟩)
      exact Option.mem_toList.mpr hfix
    have hblock := hfits.inside _ hround _ hstore
    have hoffset := fixup_offset_lt hfix
    have hlast' := Nat.lt_of_lt_of_le hlast (trimZeros_le text sym.addr sym.size.toNat)
    rw [u32Bytes_length, add_ofNat_add, block_add_subset_iff (by decide) (by omega)] at hblock
    exact hblock
  · intro hends
    have hle := hstops.le_iff.mpr hends.ends
    refine ⟨fun r hr store hstore => ?_, hsize.mpr hle, hnewSize ▸ hconsecutive,
      fun i hi hne => ?_⟩
    · obtain ⟨q, hq, hlast, rfl⟩ := (hmem r).mp hr
      rcases List.mem_cons.mp hstore with rfl | hfixed
      · have hend : q + insnLen decode sym.addr q ≤ n :=
          hq.step_le hstops.walk (Nat.lt_of_lt_of_le hlast hstops.limit_le)
        rw [bytesAt_length]
        exact (block_add_subset _ q _).trans (block_mono _ (Nat.le_trans hend hle))
      · obtain ⟨⟨offset, addr⟩, hfix, rfl⟩ := List.mem_map.mp hfixed
        have hend := hends.operands q hq hlast offset addr (Option.mem_toList.mp hfix)
        show block (sym.newAddr + BitVec.ofNat w q + BitVec.ofNat w offset) _ ⊆ _
        rw [u32Bytes_length, add_ofNat_add]
        exact (block_add_subset _ _ 4).trans (block_mono _ hend)
    · rw [hnewSize]
      exact Nat.lt_of_lt_of_le (lt_trimZeros hi hne) hstops.limit_le

end

section

variable {Page : Type} [DecidableEq Page] {env : Platform w Page} {f : HookedFunction}
  {sym sym' : Kernsym w} {k k' : Kernel w Page}

/-- The listed stores are what is done to the buffer. -/
theorem symbolHijack_stores (h : symbolHijack env f sym k = some (0, sym', k')) :
    k'.copies = overwriteAll (fill k.copies sym'.newAddr 0 sym'.size.toNat)
      ((sym'.allRounds env.decode k.text).flatMap (·.stores k.text sym')) := by
  obtain ⟨-, -, -, func, d, hfaddr, hfsize, -, hcopy⟩ := symbolHijack_copy h
  rw [copyInsns_eq hcopy, Kernsym.allRounds, Kernsym.rounds, BitVec.add_zero, BitVec.add_zero]
  simp only [stores_congr hfaddr hfsize]

/-- The copy ends where the walk over the instructions stops. -/
theorem symbolHijack_rounds (hw : 2 ^ 8 ≤ 2 ^ w)
    (h : symbolHijack env f sym k = some (0, sym', k'))
    (hordered : (env.symbol f).addr ≤ (env.symbol f).endAddr) :
    Stops (insnLen env.decode sym'.addr) (trimZeros k.text sym'.addr sym'.size.toNat) 0
        sym'.newSize.toNat ∧
      Consecutive env.decode sym' (sym'.allRounds env.decode k.text) 0 sym'.newSize.toNat ∧
      ∀ r, r ∈ sym'.allRounds env.decode k.text ↔ ∃ q, Walk (insnLen env.decode sym'.addr) 0 q ∧
        q < trimZeros k.text sym'.addr sym'.size.toNat ∧ r = sym'.round env.decode q := by
  obtain ⟨haddr, hsize, -, func, d, -, -, hnewSize, hcopy⟩ := symbolHijack_copy h
  have hfits := toNat_add_size hordered
  rw [← haddr, ← hsize] at hfits
  have hstart : ∀ a : BitVec w, a + BitVec.ofNat w 0 = a := BitVec.add_zero
  have hrun : copyInsns env.decode k.text func (imageEnd k.text sym'.addr sym'.size)
      (sym'.size.toNat + 1) (sym'.addr + BitVec.ofNat w 0) (sym'.newAddr + BitVec.ofNat w 0)
      (fill k.copies sym'.newAddr 0 sym'.size.toNat) = some (some d, k'.copies) := by
    rw [hstart, hstart]
    exact hcopy
  obtain ⟨n, rfl, hn, hstops, hconsecutive, hmem⟩ :=
    copyInsns_rounds hw (toNat_imageEnd hfits) sym'.addr.isLt hrun
  have hnewSizeNat : sym'.newSize.toNat = n := by
    rw [hnewSize, BitVec.add_comm, BitVec.add_sub_cancel, BitVec.toNat_ofNat,
      Nat.mod_eq_of_lt (Nat.lt_of_le_of_lt (Nat.le_add_left _ _) hn)]
  rw [hnewSizeNat]
  exact ⟨hstops, hconsecutive, hmem⟩

/-- The copy of a function that is hijacked fits if and only if an instruction ends
behind the last byte of the function that is not 0 and inside the function, and no
fix-up writes behind its end. -/
theorem copy_fits_iff (hw : w = 32 ∨ w = 64)
    (h : symbolHijack env f sym k = some (0, sym', k'))
    (hordered : (env.symbol f).addr ≤ (env.symbol f).endAddr)
    (hmalloc : ∀ newAddr, env.malloc f = some newAddr →
      Disjoint (block newAddr (env.symbol f).size.toNat)
        (block (env.symbol f).addr (env.symbol f).size.toNat)) :
    CopyFits env.decode k.text sym' ↔ EndsInside env.decode k.text (env.symbol f).func := by
  obtain ⟨haddr, hsize, hnew, -⟩ := symbolHijack_copy h
  have hapart := hmalloc _ hnew
  rw [← haddr, ← hsize] at hapart
  have hlarge : 2 ^ 32 ≤ 2 ^ w := by
    rcases hw with rfl | rfl
    · exact Nat.le_refl _
    · decide
  have hroom : sym'.size.toNat + 2 ^ 12 ≤ 2 ^ w := by
    rcases Nat.eq_zero_or_pos sym'.size.toNat with hzero | hpos
    · omega
    · have hhalf := (disjoint_blocks hpos hapart).2
      omega
  obtain ⟨hstops, hconsecutive, hmem⟩ :=
    symbolHijack_rounds (Nat.le_trans (by decide) hlarge) h hordered
  rw [copyFits_iff hroom rfl hstops hconsecutive hmem]
  exact (endsInside_congr haddr.symm hsize.symm).symm

end

/-! ## Two small functions -/

/-- A kernel in which `vfs_write` has `n` bytes. -/
def smallPlatform (n : BitVec 64) (decode : BitVec 64 → Insn) : Platform 64 (BitVec 64) :=
  { coldBranchPlatform with
    symbol
      | .write => ⟨0, vfsWriteAddr, vfsWriteAddr + n⟩
      | .mkdir | .rmdir | .rename | .unlink | .symlink | .link | .create => ⟨-EFAULT, 0, 0⟩
    decode }

def smallKernel (bytes : Bytes) : Kernel 64 (BitVec 64) :=
  { coldBranchKernel with text a := bytes.getD (a - vfsWriteAddr).toNat 0x90 }

/-- `call` of a function elsewhere, and `ret`. -/
def callOut : Bytes := [0xe8, 0x00, 0x10, 0x00, 0x00, 0xc3]

def decodeCallOut (a : BitVec 64) : Insn :=
  if a = vfsWriteAddr then
    { ret with opcode := ⟨0xe8, 1⟩, immediate := ⟨0x1000, 4⟩, length := 5 }
  else ret

/-- Four `nop`, and the first byte of a `mov` that ends in the next symbol. -/
def cutOff : Bytes := [0x90, 0x90, 0x90, 0x90, 0xb8]

def decodeCutOff (a : BitVec 64) : Insn :=
  if a = vfsWriteAddr + 4 then
    { ret with opcode := ⟨0xb8, 1⟩, immediate := ⟨0x90909090, 4⟩, length := 5 }
  else { ret with opcode := ⟨0x90, 1⟩ }

theorem smallPlatform_hijacked {n : BitVec 64} {decode : BitVec 64 → Insn} {bytes : Bytes}
    (haccepted : Accepted (smallPlatform n decode) (smallKernel bytes).text .write)
    (hn : vfsWriteAddr.toNat + (vfsWriteAddr + n - vfsWriteAddr).toNat + 255 ≤ 2 ^ 64) :
    ∃ sym k, symbolHijack (smallPlatform n decode) .write {} (smallKernel bytes) =
      some (0, sym, k) := by
  have hpage : (smallPlatform n decode).OnePage ((smallPlatform n decode).symbol .write).addr := by
    intro a ha
    have hnear : (a - vfsWriteAddr).toNat < 5 := ha
    change a >>> 12 = vfsWriteAddr >>> 12
    unfold vfsWriteAddr at hnear ⊢
    bv_omega
  have hsome :
      (symbolHijack (smallPlatform n decode) .write {} (smallKernel bytes)).isSome = true :=
    symbolHijack_isSome (fun _ => ⟨hpage, hn⟩) _ _
  obtain ⟨⟨status, sym, k⟩, hrun⟩ := Option.isSome_iff_exists.mp hsome
  rcases symbolHijack_cases hrun with ⟨-, hnot, -⟩ | ⟨rfl, -⟩
  · exact absurd haccepted hnot
  · exact ⟨sym, k, hrun⟩

theorem cutOff_end :
    imageEnd (smallKernel cutOff).text vfsWriteAddr (vfsWriteAddr + 5 - vfsWriteAddr) =
      vfsWriteAddr + 5 := by
  decide +kernel

theorem cutOff_accepted :
    Accepted (smallPlatform 5 decodeCutOff) (smallKernel cutOff).text .write where
  found := (by decide : (0 : Int) ≤ 0)
  not_jump := (by decide +kernel : (smallKernel cutOff).text vfsWriteAddr ≠ opJmpRel32)
  allocated := rfl
  long_enough := (by decide : opJmpSize ≤ (vfsWriteAddr + 5 - vfsWriteAddr).toNat)
  not_zero := by
    change vfsWriteAddr ≠ imageEnd _ vfsWriteAddr (vfsWriteAddr + 5 - vfsWriteAddr)
    rw [cutOff_end]
    decide
  decodes := by
    change Decodes _ (imageEnd _ vfsWriteAddr (vfsWriteAddr + 5 - vfsWriteAddr)) vfsWriteAddr
    rw [cutOff_end]
    exact .insn (by decide) (by decide) (.insn (by decide) (by decide) (.insn (by decide) (by decide)
      (.insn (by decide) (by decide) (.insn (by decide) (by decide) (.finish (by decide))))))

/-- The `mov` is the instruction at the fourth byte. -/
theorem cutOff_walk : Walk (insnLen decodeCutOff vfsWriteAddr) 0 4 ∧
    Walk (insnLen decodeCutOff vfsWriteAddr) 0 9 := by
  have hnop : ∀ p < 4, insnLen decodeCutOff vfsWriteAddr p = 1 := by decide +kernel
  have hmov : insnLen decodeCutOff vfsWriteAddr 4 = 5 := by decide +kernel
  have hnops : Walk (insnLen decodeCutOff vfsWriteAddr) 0 4 :=
    Walk.here.step (hnop 0 (by decide)) (by decide) |>.step (hnop 1 (by decide)) (by decide)
      |>.step (hnop 2 (by decide)) (by decide) |>.step (hnop 3 (by decide)) (by decide)
  exact ⟨hnops, hnops.step hmov (by decide)⟩

theorem callOut_end :
    imageEnd (smallKernel callOut).text vfsWriteAddr (vfsWriteAddr + 6 - vfsWriteAddr) =
      vfsWriteAddr + 6 := by
  decide +kernel

theorem callOut_accepted :
    Accepted (smallPlatform 6 decodeCallOut) (smallKernel callOut).text .write where
  found := (by decide : (0 : Int) ≤ 0)
  not_jump := (by decide +kernel : (smallKernel callOut).text vfsWriteAddr ≠ opJmpRel32)
  allocated := rfl
  long_enough := (by decide : opJmpSize ≤ (vfsWriteAddr + 6 - vfsWriteAddr).toNat)
  not_zero := by
    change vfsWriteAddr ≠ imageEnd _ vfsWriteAddr (vfsWriteAddr + 6 - vfsWriteAddr)
    rw [callOut_end]
    decide
  decodes := by
    change Decodes _ (imageEnd _ vfsWriteAddr (vfsWriteAddr + 6 - vfsWriteAddr)) vfsWriteAddr
    rw [callOut_end]
    exact .insn (by decide) (by decide) (.insn (by decide) (by decide) (.finish (by decide)))

theorem smallPlatform_malloc {n : BitVec 64} {decode : BitVec 64 → Insn}
    (hn : (vfsWriteAddr + n - vfsWriteAddr).toNat ≤ 4096) {newAddr : BitVec 64}
    (h : (smallPlatform n decode).malloc .write = some newAddr) :
    Disjoint (block newAddr ((smallPlatform n decode).symbol .write).size.toNat)
      (block ((smallPlatform n decode).symbol .write).addr
        ((smallPlatform n decode).symbol .write).size.toNat) := by
  obtain rfl : (0xffffffffa0000000 : BitVec 64) = newAddr := Option.some.inj h
  refine Set.disjoint_left.mpr fun a hcopy hbody => ?_
  have hlo : (a - 0xffffffffa0000000).toNat < 4096 := Nat.lt_of_lt_of_le hcopy hn
  have hhi : (a - vfsWriteAddr).toNat < 4096 := Nat.lt_of_lt_of_le hbody hn
  unfold vfsWriteAddr at hhi
  bv_omega

theorem callOut_insnLen :
    insnLen decodeCallOut vfsWriteAddr 0 = 5 ∧ insnLen decodeCallOut vfsWriteAddr 5 = 1 := by
  decide +kernel

theorem callOut_walk {p : Nat} (h : Walk (insnLen decodeCallOut vfsWriteAddr) 0 p) :
    p = 0 ∨ p = 5 ∨ 6 ≤ p := by
  obtain ⟨hcall, hret⟩ := callOut_insnLen
  cases h with
  | here => exact .inl rfl
  | stride _ h =>
    rw [Nat.zero_add, hcall] at h
    cases h with
    | here => exact .inr (.inl rfl)
    | stride _ h =>
      rw [hret] at h
      exact .inr (.inr h.le)

theorem callOut_endsInside : EndsInside decodeCallOut (smallKernel callOut).text
    ((smallPlatform 6 decodeCallOut).symbol .write).func := by
  obtain ⟨hcall, hret⟩ := callOut_insnLen
  have hlimit : trimZeros (smallKernel callOut).text vfsWriteAddr
      (vfsWriteAddr + 6 - vfsWriteAddr).toNat = 6 := by
    decide +kernel
  constructor
  · have hfirst : Walk (insnLen decodeCallOut vfsWriteAddr) 0 5 :=
      Walk.here.step hcall (by decide)
    exact ⟨6, hfirst.step hret (by decide), hlimit.le, by decide⟩
  · intro p hp hlast offset addr hfix
    rcases callOut_walk hp with rfl | rfl | hge
    · have hoffset : (fixup (vfsWriteAddr + BitVec.ofNat 64 0)
          (decodeCallOut (vfsWriteAddr + BitVec.ofNat 64 0))
          ((smallPlatform 6 decodeCallOut).symbol .write).func).map Prod.fst = some 1 := by
        decide +kernel
      obtain rfl : offset = 1 :=
        Option.some.inj ((congrArg (Option.map Prod.fst) hfix).symm.trans hoffset)
      decide
    · have hnone : (fixup (vfsWriteAddr + BitVec.ofNat 64 5)
          (decodeCallOut (vfsWriteAddr + BitVec.ofNat 64 5))
          ((smallPlatform 6 decodeCallOut).symbol .write).func).map Prod.fst = none := by
        decide +kernel
      exact absurd ((congrArg (Option.map Prod.fst) hfix).symm.trans hnone) nofun
    · exact absurd hge (Nat.not_le.mpr (Nat.lt_of_lt_of_eq hlast hlimit))

theorem copy_fits_iff_call_out :
    ∃ sym k, symbolHijack (smallPlatform 6 decodeCallOut) .write {} (smallKernel callOut) =
        some (0, sym, k) ∧
      CopyFits decodeCallOut (smallKernel callOut).text sym := by
  obtain ⟨sym, k, hrun⟩ := smallPlatform_hijacked callOut_accepted (by decide)
  exact ⟨sym, k, hrun, (copy_fits_iff (.inr rfl) hrun (by decide)
    fun _ hnew => smallPlatform_malloc (by decide) hnew).mpr callOut_endsInside⟩

/-- The `mov` is copied whole: nine bytes are written to a buffer of five. -/
theorem nine_bytes_in_five :
    (∀ a, 1 ≤ (decodeCutOff a).length.toNat ∧ (decodeCutOff a).length.toNat ≤ 15) ∧
    ∃ sym k, symbolHijack (smallPlatform 5 decodeCutOff) .write {} (smallKernel cutOff) =
        some (0, sym, k) ∧
      sym.size = 5 ∧ sym.newSize = 9 ∧ ¬CopyFits decodeCutOff (smallKernel cutOff).text sym := by
  constructor
  · intro a
    unfold decodeCutOff
    split
    · decide
    · decide
  · obtain ⟨sym, k, hrun⟩ := smallPlatform_hijacked cutOff_accepted (by decide)
    obtain ⟨haddr, hsize, -⟩ := symbolHijack_copy hrun
    obtain ⟨hstops, -⟩ := symbolHijack_rounds (by decide) hrun (by decide)
    rw [haddr, hsize] at hstops
    have hlimit : trimZeros (smallKernel cutOff).text vfsWriteAddr
        (vfsWriteAddr + 5 - vfsWriteAddr).toNat = 5 := by
      decide +kernel
    obtain ⟨hmov, hnine⟩ := cutOff_walk
    have hge : 5 ≤ sym.newSize.toNat := Nat.le_trans hlimit.ge hstops.limit_le
    have hle : sym.newSize.toNat ≤ 9 := hstops.first 9 hnine (Nat.le_trans hlimit.le (by decide))
    have hlast : 4 + 5 ≤ sym.newSize.toNat := hmov.step_le hstops.walk hge
    have hnewSize : sym.newSize = 9 := BitVec.eq_of_toNat_eq (Nat.le_antisymm hle hlast)
    refine ⟨sym, k, hrun, hsize, hnewSize, fun hfits => ?_⟩
    have hsmall := hfits.newSize_le
    rw [hnewSize, hsize] at hsmall
    exact absurd hsmall (by decide)

end RtBackup
