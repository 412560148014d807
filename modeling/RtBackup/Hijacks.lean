import RtBackup.HookVfs
import RtBackup.Lib.AddressSpace
import Mathlib.Logic.Function.Basic

/-!
# Patching kernel functions (`hijacks.c`)

`symbol_hijack` copies a kernel function instruction by instruction to memory
of its own and then overwrites the first five bytes of the function with a jump
to the hook. `symbol_restore` puts the five bytes back. The page of the function
is made writable for the time of each store.

The model is over words of `w` bits. The memory of the copies is apart from the
text of the kernel. Every store to the text is checked against the page tables
and recorded.

Results:
1. `copyInsns_isSome_iff`: the copy is complete exactly if every instruction can
   be decoded.
2. `symbolHijack_cases`, `symbolRestore_cases`: all that the two functions do.
3. `symbolHijack_isSome`, `symbolRestore_isSome`: they do not fault.
-/

namespace RtBackup

open AddressSpace ByteFile

variable {w : Nat} {Page : Type} [DecidableEq Page]

/-! ## Instructions -/

structure InsnField where
  value : BitVec 32
  nbytes : UInt8

/-- `struct insn` as the decoder fills it in. -/
structure Insn where
  prefixes : InsnField
  rex : InsnField
  vex : InsnField
  opcode : InsnField
  modrm : InsnField
  sib : InsnField
  displacement : InsnField
  immediate : InsnField
  length : UInt8
  /-- The answer of `rtb_insn_rip_relative`. -/
  ripRelative : Bool

namespace Insn

/-- `opcode.bytes[0]`. -/
def opcode1 (insn : Insn) : UInt8 := ⟨insn.opcode.value.setWidth 8⟩

def offsetDisplacement (insn : Insn) : Nat :=
  insn.prefixes.nbytes.toNat + insn.rex.nbytes.toNat + insn.vex.nbytes.toNat +
    insn.opcode.nbytes.toNat + insn.modrm.nbytes.toNat + insn.sib.nbytes.toNat

def offsetImmediate (insn : Insn) : Nat :=
  insn.offsetDisplacement + insn.displacement.nbytes.toNat

end Insn

def opJmpRel32 : UInt8 := 0xe9
def opCallRel32 : UInt8 := 0xe8
def opJmpSize : Nat := 5

/-- `CODE_ADDR_FROM_OFFSET`, for words of 64 and of 32 bits. -/
def codeAddrFromOffset (insnAddr : BitVec w) (insnLen : Nat) (offset : BitVec 32) : BitVec w :=
  insnAddr + BitVec.ofNat w insnLen + offset.signExtend w

/-- `CODE_OFFSET_FROM_ADDR`. -/
def codeOffsetFromAddr (insnAddr : BitVec w) (insnLen : Nat) (destAddr : BitVec w) : BitVec 32 :=
  (destAddr - (insnAddr + BitVec.ofNat w insnLen)).setWidth 32

/-- A `u32` in memory. -/
def u32Bytes (v : BitVec 32) : Bytes := leBytes 4 v.toNat

theorem u32Bytes_length (v : BitVec 32) : (u32Bytes v).length = 4 := leBytes_length 4 _

/-! ## The kernel -/

/-- `struct kernsym`; all of it is 0 before `find_symbol_address`. -/
structure Kernsym (w : Nat) where
  addr : BitVec w := 0
  endAddr : BitVec w := 0
  size : BitVec w := 0
  origStartBytes : Bytes := List.replicate opJmpSize 0
  origStartBytes_length : origStartBytes.length = opJmpSize := by rfl
  newAddr : BitVec w := 0
  newSize : BitVec w := 0
  hijacked : Bool := false
  run : BitVec w := 0

structure Kernel (w : Nat) (Page : Type) where
  text : Image w
  /-- `_PAGE_RW` of the entry of each page. -/
  writable : Page → Bool
  /-- The memory of `module_alloc`. -/
  copies : Image w
  /-- The addresses of all bytes of the text that were stored to. No function
  looks at it. -/
  stores : List (BitVec w)

/-- How a build changes the protection of a page. -/
inductive PageApi where
  /-- In the page table entry that `lookup_address` finds. -/
  | lookupAddress
  /-- With `change_page_attr`: kernels before 2.6.26 with `CONFIG_XEN` or
  `CONFIG_X86_PAE`. -/
  | changePageAttr
deriving DecidableEq

/-- The answer of `find_symbol_address`. -/
structure SymbolAnswer (w : Nat) where
  status : Int
  addr : BitVec w
  endAddr : BitVec w

def SymbolAnswer.size (a : SymbolAnswer w) : BitVec w := a.endAddr - a.addr

/-- The kernel that the module is loaded into. -/
structure Platform (w : Nat) (Page : Type) where
  pageApi : PageApi
  pageOf : BitVec w → Page
  symbol : HookedFunction → SymbolAnswer w
  /-- `none` is NULL. -/
  malloc : HookedFunction → Option (BitVec w)
  /-- Functions without a common byte have no address decoded twice. -/
  decode : BitVec w → Insn
  /-- `func` in `security2hook`. -/
  func : HookedFunction → BitVec w

/-! ## Page protection -/

def Kernel.setWritable (k : Kernel w Page) (page : Page) (rw : Bool) : Kernel w Page :=
  { k with writable := Function.update k.writable page rw }

/-- `set_addr_rw`. The flag is none where it is not set. -/
def setAddrRw (api : PageApi) (page : Page) (k : Kernel w Page) : Option Bool × Kernel w Page :=
  match api with
  | .changePageAttr => (none, k.setWritable page true)
  | .lookupAddress =>
    if k.writable page then (some false, k) else (some true, k.setWritable page true)

/-- `set_addr_ro`. -/
def setAddrRo (api : PageApi) (page : Page) (flag : Option Bool) (k : Kernel w Page) :
    Kernel w Page :=
  match api with
  | .changePageAttr => k.setWritable page false
  -- only set back to readonly if it was readonly before
  | .lookupAddress => if flag = some true then k.setWritable page false else k

/-- A store to the text, `none` where a page is not writable. -/
def Kernel.store (pageOf : BitVec w → Page) (addr : BitVec w) (bytes : Bytes)
    (k : Kernel w Page) : Option (Kernel w Page) :=
  if ∀ a ∈ addresses addr bytes.length, k.writable (pageOf a) = true then
    some { k with
      text := overwrite k.text addr bytes
      stores := k.stores ++ addresses addr bytes.length }
  else none

/-! ## The copy of a function -/

def Kernsym.contains (sym : Kernsym w) (addr : BitVec w) : Bool :=
  sym.addr ≤ addr && addr < sym.addr + sym.size

/-- `copy_and_fixup_insn` of the instruction at `kaddr`. -/
def copyAndFixupInsn (text : Image w) (kaddr : BitVec w) (srcInsn : Insn) (dest : BitVec w)
    (func : Kernsym w) (copies : Image w) : Image w :=
  let len := srcInsn.length.toNat
  let copies := overwrite copies dest (bytesAt text kaddr len)
  if srcInsn.opcode1 = opCallRel32 ∨ srcInsn.opcode1 = opJmpRel32 then
    let addr := codeAddrFromOffset kaddr len srcInsn.immediate.value
    if func.contains addr then copies
    else
      overwrite copies (dest + BitVec.ofNat w srcInsn.offsetImmediate)
        (u32Bytes (codeOffsetFromAddr dest len addr))
  else if w = 64 ∧ srcInsn.ripRelative then
    let addr := codeAddrFromOffset kaddr len srcInsn.displacement.value
    if func.contains addr then copies
    else
      overwrite copies (dest + BitVec.ofNat w srcInsn.offsetDisplacement)
        (u32Bytes (codeOffsetFromAddr dest len addr))
  else copies

/-- The number of bytes up to the last one that is not 0. -/
def trimZeros (text : Image w) (addr : BitVec w) : Nat → Nat
  | 0 => 0
  | n + 1 => if text (addr + BitVec.ofNat w n) = 0 then trimZeros text addr n else n + 1

/-- `end_addr` after the zeros at the end are cut off. Where the next symbol lies
below this one, nothing is. -/
def imageEnd (text : Image w) (addr size : BitVec w) : BitVec w :=
  if addr < addr + size then addr + BitVec.ofNat w (trimZeros text addr size.toNat)
  else addr + size

/-- The copy loop, with `dest_addr` at its end, or `none` for an instruction that
cannot be decoded. Nothing is returned if `orig_addr` runs over the end of the
address space: the decoder then reads the NULL page. -/
def copyInsns (decode : BitVec w → Insn) (text : Image w) (sym : Kernsym w) (endAddr : BitVec w) :
    Nat → BitVec w → BitVec w → Image w → Option (Option (BitVec w) × Image w)
  | 0, _, _, _ => none
  | fuel + 1, origAddr, destAddr, copies =>
    if origAddr < endAddr then
      let insn := decode origAddr
      let next := origAddr + BitVec.ofNat w insn.length.toNat
      if insn.length = 0 then some (none, copies)
      else if next < origAddr then none
      else
        copyInsns decode text sym endAddr fuel next (destAddr + BitVec.ofNat w insn.length.toNat)
          (copyAndFixupInsn text origAddr insn destAddr sym copies)
    else some (some destAddr, copies)

/-! ## `symbol_hijack` and `symbol_restore` -/

def EFAULT : Int := 14
def ENOMEM : Int := 12
def EILSEQ : Int := 84

def findSymbolAddress (answer : SymbolAnswer w) (sym : Kernsym w) : Int × Kernsym w :=
  if answer.status < 0 then
    (answer.status, { sym with addr := answer.addr, endAddr := answer.endAddr })
  else
    (answer.status, { sym with
      addr := answer.addr
      endAddr := answer.endAddr
      size := answer.size
      newSize := answer.size
      run := answer.addr })

/-- `symbol_hijack` from `set_addr_rw` on. -/
def patchEntry (env : Platform w Page) (code : BitVec w) (sym : Kernsym w) (k : Kernel w Page) :
    Option (Kernsym w × Kernel w Page) :=
  let page := env.pageOf sym.addr
  let (pteRo, k) := setAddrRw env.pageApi page k
  let sym := { sym with
    origStartBytes := bytesAt k.text sym.addr opJmpSize
    origStartBytes_length := bytesAt_length .. }
  let offset := codeOffsetFromAddr sym.addr opJmpSize code
  do
    let k ← k.store env.pageOf sym.addr [opJmpRel32]
    let k ← k.store env.pageOf (sym.addr + BitVec.ofNat w 1) (u32Bytes offset)
    some ({ sym with hijacked := true }, setAddrRo env.pageApi page pteRo k)

/-- `symbol_hijack` behind `malloc`. -/
def relocate (env : Platform w Page) (code : BitVec w) (sym : Kernsym w) (k : Kernel w Page) :
    Option (Int × Kernsym w × Kernel w Page) :=
  let k := { k with copies := fill k.copies sym.newAddr 0 sym.size.toNat }
  if sym.size.toNat < opJmpSize then some (-EFAULT, sym, k)
  else
    let endAddr := imageEnd k.text sym.addr sym.size
    if sym.addr = endAddr then some (-EILSEQ, sym, k)
    else
      match copyInsns env.decode k.text sym endAddr (sym.size.toNat + 1) sym.addr sym.newAddr
        k.copies with
      | none => none
      | some (none, copies) => some (-EILSEQ, sym, { k with copies })
      | some (some destAddr, copies) =>
        let sym := { sym with newSize := destAddr - sym.newAddr, run := sym.newAddr }
        (patchEntry env code sym { k with copies }).map fun (sym, k) => (0, sym, k)

/-- `symbol_hijack`, with its status. Nothing is returned where the kernel
faults. -/
def symbolHijack (env : Platform w Page) (f : HookedFunction) (sym : Kernsym w)
    (k : Kernel w Page) : Option (Int × Kernsym w × Kernel w Page) :=
  let (ret, sym) := findSymbolAddress (env.symbol f) sym
  if ret < 0 then some (ret, sym, k)
  else if k.text sym.addr = opJmpRel32 then some (-EFAULT, sym, k)
  else
    match env.malloc f with
    | none => some (-ENOMEM, { sym with newAddr := 0 }, k)
    | some newAddr => relocate env (env.func f) { sym with newAddr } k

def symbolRestore (env : Platform w Page) (sym : Kernsym w) (k : Kernel w Page) :
    Option (Kernsym w × Kernel w Page) :=
  if sym.hijacked then
    let page := env.pageOf sym.addr
    let (pteRo, k) := setAddrRw env.pageApi page k
    do
      let k ← k.store env.pageOf sym.addr sym.origStartBytes
      some ({ sym with hijacked := false }, setAddrRo env.pageApi page pteRo k)
  else some (sym, k)

/-! ## What the copy loop does -/

/-- Instructions follow one another from `origAddr` to `endAddr` or over it. -/
inductive Decodes (decode : BitVec w → Insn) (endAddr : BitVec w) : BitVec w → Prop where
  | finish {origAddr} : ¬origAddr < endAddr → Decodes decode endAddr origAddr
  | insn {origAddr} : origAddr < endAddr → (decode origAddr).length ≠ 0 →
      Decodes decode endAddr (origAddr + BitVec.ofNat w (decode origAddr).length.toNat) →
      Decodes decode endAddr origAddr

/-- One round of the loop: it is over, meets an instruction that cannot be decoded, or
copies one and goes on. -/
theorem copyInsns_succ_cases {decode : BitVec w → Insn} {text : Image w} {sym : Kernsym w}
    {endAddr : BitVec w} {fuel : Nat} {origAddr destAddr : BitVec w} {copies copies' : Image w}
    {r : Option (BitVec w)}
    (h : copyInsns decode text sym endAddr (fuel + 1) origAddr destAddr copies =
      some (r, copies')) :
    (¬origAddr < endAddr ∧ r = some destAddr ∧ copies' = copies) ∨
    (origAddr < endAddr ∧ (decode origAddr).length = 0 ∧ r = none ∧ copies' = copies) ∨
    (origAddr < endAddr ∧ (decode origAddr).length ≠ 0 ∧
      ¬origAddr + BitVec.ofNat w (decode origAddr).length.toNat < origAddr ∧
      copyInsns decode text sym endAddr fuel
          (origAddr + BitVec.ofNat w (decode origAddr).length.toNat)
          (destAddr + BitVec.ofNat w (decode origAddr).length.toNat)
          (copyAndFixupInsn text origAddr (decode origAddr) destAddr sym copies) =
        some (r, copies')) := by
  unfold copyInsns at h
  split at h
  · next hlt =>
    simp only at h
    split at h
    · next hlen =>
      cases h
      exact .inr (.inl ⟨hlt, hlen, rfl, rfl⟩)
    · next hlen =>
      split at h
      · cases h
      · next hwrap => exact .inr (.inr ⟨hlt, hlen, hwrap, h⟩)
  · next hge =>
    cases h
    exact .inl ⟨hge, rfl, rfl⟩

theorem copyInsns_isSome_iff {decode : BitVec w → Insn} {text : Image w} {sym : Kernsym w}
    {endAddr : BitVec w} {fuel : Nat} {origAddr destAddr : BitVec w} {copies copies' : Image w}
    {r : Option (BitVec w)}
    (h : copyInsns decode text sym endAddr fuel origAddr destAddr copies = some (r, copies')) :
    r.isSome = true ↔ Decodes decode endAddr origAddr := by
  induction fuel generalizing origAddr destAddr copies with
  | zero => exact absurd h nofun
  | succ fuel ih =>
    rcases copyInsns_succ_cases h with ⟨hge, rfl, rfl⟩ | ⟨hlt, hlen, rfl, rfl⟩ | ⟨hlt, hlen, -, h⟩
    · exact iff_of_true rfl (.finish hge)
    · refine iff_of_false Bool.false_ne_true fun hdecodes => ?_
      cases hdecodes with
      | finish hge => exact hge hlt
      | insn _ hne _ => exact hne hlen
    · refine (ih h).trans ⟨fun hrest => .insn hlt hlen hrest, fun hdecodes => ?_⟩
      cases hdecodes with
      | finish hge => exact absurd hlt hge
      | insn _ _ hrest => exact hrest

/-- The fuel lasts, since every instruction has a byte. -/
theorem copyInsns_isSome {decode : BitVec w → Insn} {text : Image w} {sym : Kernsym w}
    {endAddr : BitVec w} (hend : endAddr.toNat + 255 ≤ 2 ^ w) {fuel : Nat}
    {origAddr : BitVec w} (hfuel : endAddr.toNat ≤ origAddr.toNat + fuel)
    (destAddr : BitVec w) (copies : Image w) :
    (copyInsns decode text sym endAddr (fuel + 1) origAddr destAddr copies).isSome = true := by
  induction fuel generalizing origAddr destAddr copies with
  | zero =>
    have hge : ¬origAddr < endAddr := fun hlt => absurd (BitVec.lt_def.mp hlt) (by omega)
    rw [copyInsns, if_neg hge]
    rfl
  | succ fuel ih =>
    rw [copyInsns]
    split
    · next hlt =>
      have horig : origAddr.toNat < endAddr.toNat := BitVec.lt_def.mp hlt
      simp only
      split
      · rfl
      · next hlen =>
        have hbyte : (decode origAddr).length.toNat < 256 := UInt8.toNat_lt _
        have hpos : (decode origAddr).length.toNat ≠ 0 := fun h0 => hlen (UInt8.toNat_inj.mp h0)
        -- the address space does not end inside the instruction
        have hnext : (origAddr + BitVec.ofNat w (decode origAddr).length.toNat).toNat =
            origAddr.toNat + (decode origAddr).length.toNat := by
          rw [BitVec.toNat_add, BitVec.toNat_ofNat, Nat.add_mod_mod, Nat.mod_eq_of_lt (by omega)]
        rw [if_neg fun hwrap => absurd (BitVec.lt_def.mp hwrap) (by omega)]
        exact ih (by omega) _ _
    · rfl

/-! ## What is read of the text -/

theorem trimZeros_le (text : Image w) (addr : BitVec w) (n : Nat) : trimZeros text addr n ≤ n := by
  induction n with
  | zero => exact Nat.le_refl 0
  | succ n ih =>
    rw [trimZeros]
    split
    · exact Nat.le_succ_of_le ih
    · exact Nat.le_refl _

theorem trimZeros_congr {text text' : Image w} {addr : BitVec w} {n : Nat}
    (h : Set.EqOn text text' (block addr n)) : trimZeros text addr n = trimZeros text' addr n := by
  induction n with
  | zero => rfl
  | succ n ih =>
    rw [trimZeros, trimZeros, h (add_mem_block addr (Nat.lt_succ_self n)),
      ih (h.mono (block_mono addr (Nat.le_succ n)))]

theorem imageEnd_congr {text text' : Image w} {addr size : BitVec w}
    (h : Set.EqOn text text' (block addr size.toNat)) :
    imageEnd text addr size = imageEnd text' addr size := by
  rw [imageEnd, imageEnd, trimZeros_congr h]

theorem imageEnd_le {text : Image w} {addr size : BitVec w}
    (hfits : addr.toNat + size.toNat < 2 ^ w) :
    (imageEnd text addr size).toNat ≤ addr.toNat + size.toNat := by
  have hle := trimZeros_le text addr size.toNat
  unfold imageEnd
  split
  · rw [BitVec.toNat_add, BitVec.toNat_ofNat, Nat.add_mod_mod, Nat.mod_eq_of_lt (by omega)]
    omega
  · rw [BitVec.toNat_add]
    exact Nat.mod_le _ _

/-! ## What the page protection and the stores do -/

/-- The protection after `set_addr_rw` and `set_addr_ro`. -/
def settle (api : PageApi) (page : Page) (writable : Page → Bool) : Page → Bool :=
  match api with
  | .lookupAddress => writable
  | .changePageAttr => Function.update writable page false

section

variable {api : PageApi} {page : Page} {flag : Option Bool} {k : Kernel w Page}

theorem setAddrRw_cases (api : PageApi) (page : Page) (k : Kernel w Page) :
    (setAddrRw api page k).2 = k ∧ k.writable page = true ∨
      (setAddrRw api page k).2 = k.setWritable page true := by
  cases api with
  | changePageAttr => exact .inr rfl
  | lookupAddress =>
    cases hrw : k.writable page with
    | true => exact .inl ⟨by rw [setAddrRw, if_pos hrw], rfl⟩
    | false => exact .inr (by rw [setAddrRw, if_neg (by simp [hrw])])

theorem setAddrRo_cases (api : PageApi) (page : Page) (flag : Option Bool) (k : Kernel w Page) :
    setAddrRo api page flag k = k ∨ setAddrRo api page flag k = k.setWritable page false := by
  cases api with
  | changePageAttr => exact .inr rfl
  | lookupAddress => exact (ite_eq_or_eq ..).symm

@[simp] theorem setAddrRw_text : (setAddrRw api page k).2.text = k.text := by
  rcases setAddrRw_cases api page k with ⟨heq, -⟩ | heq <;> rw [heq]
  rfl

@[simp] theorem setAddrRw_stores : (setAddrRw api page k).2.stores = k.stores := by
  rcases setAddrRw_cases api page k with ⟨heq, -⟩ | heq <;> rw [heq]
  rfl

theorem setAddrRw_writable : (setAddrRw api page k).2.writable page = true := by
  rcases setAddrRw_cases api page k with ⟨heq, hrw⟩ | heq
  · rw [heq, hrw]
  · rw [heq]
    exact Function.update_self ..

@[simp] theorem setAddrRo_text : (setAddrRo api page flag k).text = k.text := by
  rcases setAddrRo_cases api page flag k with heq | heq <;> rw [heq]
  rfl

@[simp] theorem setAddrRo_stores : (setAddrRo api page flag k).stores = k.stores := by
  rcases setAddrRo_cases api page flag k with heq | heq <;> rw [heq]
  rfl

/-- A page table entry gets its old bit back, and `change_page_attr` does not look
at the old protection. -/
theorem setAddrRo_writable {k' : Kernel w Page}
    (h : k'.writable = (setAddrRw api page k).2.writable) :
    (setAddrRo api page (setAddrRw api page k).1 k').writable = settle api page k.writable := by
  cases api with
  | changePageAttr =>
    change Function.update k'.writable page false = Function.update k.writable page false
    rw [h]
    exact Function.update_idem ..
  | lookupAddress =>
    cases hrw : k.writable page with
    | true =>
      rw [setAddrRw, if_pos hrw] at h
      rw [setAddrRw, if_pos hrw]
      exact h
    | false =>
      rw [setAddrRw, if_neg (by simp [hrw])] at h
      rw [setAddrRw, if_neg (by simp [hrw])]
      change Function.update k'.writable page false = k.writable
      rw [h, ← hrw]
      change Function.update (Function.update k.writable page true) page (k.writable page) = _
      rw [Function.update_idem, Function.update_eq_self]

end

omit [DecidableEq Page] in
theorem store_cases {pageOf : BitVec w → Page} {addr : BitVec w} {bytes : Bytes}
    {k k' : Kernel w Page} (h : k.store pageOf addr bytes = some k') :
    k'.text = overwrite k.text addr bytes ∧ k'.writable = k.writable ∧
      k'.stores = k.stores ++ addresses addr bytes.length := by
  unfold Kernel.store at h
  split at h
  · cases h
    exact ⟨rfl, rfl, rfl⟩
  · exact absurd h nofun

omit [DecidableEq Page] in
theorem store_isSome {pageOf : BitVec w → Page} {addr : BitVec w} {bytes : Bytes}
    {k : Kernel w Page} (h : ∀ a ∈ block addr bytes.length, k.writable (pageOf a) = true) :
    (k.store pageOf addr bytes).isSome = true := by
  rw [Kernel.store, if_pos fun a ha => h a (mem_addresses.mp ha)]
  rfl

/-! ## What the two functions do -/

/-- The bytes that `symbol_hijack` overwrites. -/
def Platform.site (env : Platform w Page) (f : HookedFunction) : Set (BitVec w) :=
  block (env.symbol f).addr opJmpSize

/-- The function is found, does not start with a jump, has memory for its copy
and five bytes, and each of its instructions up to the zeros at its end can be
decoded. -/
structure Accepted (env : Platform w Page) (text : Image w) (f : HookedFunction) : Prop where
  found : 0 ≤ (env.symbol f).status
  not_jump : text (env.symbol f).addr ≠ opJmpRel32
  allocated : (env.malloc f).isSome = true
  long_enough : opJmpSize ≤ (env.symbol f).size.toNat
  not_zero : (env.symbol f).addr ≠ imageEnd text (env.symbol f).addr (env.symbol f).size
  decodes : Decodes env.decode (imageEnd text (env.symbol f).addr (env.symbol f).size)
    (env.symbol f).addr

/-- What is done to the text, in the five bytes at `addr` and with the page of
`addr`. -/
structure Patched (env : Platform w Page) (addr : BitVec w) (k k' : Kernel w Page) : Prop where
  text_eq : ∀ a ∉ block addr opJmpSize, k'.text a = k.text a
  writable_eq : k'.writable = settle env.pageApi (env.pageOf addr) k.writable
  stores_mem : ∀ a ∈ k'.stores, a ∈ k.stores ∨ a ∈ block addr opJmpSize

theorem patchEntry_cases {env : Platform w Page} {code : BitVec w} {sym sym' : Kernsym w}
    {k k' : Kernel w Page} (h : patchEntry env code sym k = some (sym', k')) :
    sym'.addr = sym.addr ∧ sym'.hijacked = true ∧
      sym'.origStartBytes = bytesAt k.text sym.addr opJmpSize ∧ Patched env sym.addr k k' := by
  simp only [patchEntry, setAddrRw_text, Option.bind_eq_bind, Option.bind_eq_some_iff] at h
  obtain ⟨k₁, h₁, k₂, h₂, heq⟩ := h
  obtain ⟨htext₁, hrw₁, hstores₁⟩ := store_cases h₁
  obtain ⟨htext₂, hrw₂, hstores₂⟩ := store_cases h₂
  rw [u32Bytes_length] at hstores₂
  -- the jump, and behind it the offset
  have hjump : block sym.addr 1 ⊆ block sym.addr opJmpSize := block_mono _ (by decide)
  have hoffset : block (sym.addr + BitVec.ofNat w 1) 4 ⊆ block sym.addr opJmpSize :=
    block_add_subset sym.addr 1 4
  cases heq
  refine ⟨rfl, rfl, rfl, ?_, setAddrRo_writable (hrw₂.trans hrw₁), ?_⟩
  · intro a ha
    rw [setAddrRo_text, htext₂, overwrite_of_not_mem, htext₁, overwrite_of_not_mem, setAddrRw_text]
    · exact fun hmem => ha (hjump hmem)
    · rw [u32Bytes_length]
      exact fun hmem => ha (hoffset hmem)
  · intro a ha
    rw [setAddrRo_stores, hstores₂, hstores₁, setAddrRw_stores] at ha
    rcases List.mem_append.mp ha with ha | ha
    · exact (List.mem_append.mp ha).imp_right fun hmem => hjump (mem_addresses.mp hmem)
    · exact .inr (hoffset (mem_addresses.mp ha))

theorem symbolRestore_cases {env : Platform w Page} {sym sym' : Kernsym w} {k k' : Kernel w Page}
    (h : symbolRestore env sym k = some (sym', k')) :
    (sym.hijacked = false ∧ sym' = sym ∧ k' = k) ∨
    (sym.hijacked = true ∧ sym' = { sym with hijacked := false } ∧
      k'.text = overwrite k.text sym.addr sym.origStartBytes ∧ Patched env sym.addr k k') := by
  unfold symbolRestore at h
  split at h
  · next hhijacked =>
    simp only [Option.bind_eq_bind, Option.bind_eq_some_iff] at h
    obtain ⟨k₁, h₁, heq⟩ := h
    obtain ⟨htext, hrw, hstores⟩ := store_cases h₁
    cases heq
    have hrestored : (setAddrRo env.pageApi (env.pageOf sym.addr)
        (setAddrRw env.pageApi (env.pageOf sym.addr) k).1 k₁).text =
          overwrite k.text sym.addr sym.origStartBytes := by
      rw [setAddrRo_text, htext, setAddrRw_text]
    refine .inr ⟨hhijacked, rfl, hrestored, ?_, setAddrRo_writable hrw, ?_⟩
    · intro a ha
      rw [hrestored, overwrite_of_not_mem]
      rw [sym.origStartBytes_length]
      exact ha
    · intro a ha
      rw [setAddrRo_stores, hstores, setAddrRw_stores, sym.origStartBytes_length] at ha
      exact (List.mem_append.mp ha).imp_right mem_addresses.mp
  · next hhijacked =>
    cases h
    exact .inl ⟨by simpa using hhijacked, rfl, rfl⟩

/-- The way to a jump: `func` holds the answer about the function, and its copy ends at
`d`. -/
structure Relocated (env : Platform w Page) (f : HookedFunction) (k : Kernel w Page)
    (func : Kernsym w) (d : BitVec w) (copies : Image w) (sym' : Kernsym w)
    (k' : Kernel w Page) : Prop where
  addr : func.addr = (env.symbol f).addr
  size : func.size = (env.symbol f).size
  malloc : env.malloc f = some func.newAddr
  copy : copyInsns env.decode k.text func (imageEnd k.text func.addr func.size)
    (func.size.toNat + 1) func.addr func.newAddr (fill k.copies func.newAddr 0 func.size.toNat) =
      some (some d, copies)
  patch : patchEntry env (env.func f)
    { func with newSize := d - func.newAddr, run := func.newAddr } { k with copies } =
      some (sym', k')

/-- Either the text is left alone and the status is negative, or the function is
accepted and relocated. -/
theorem symbolHijack_inv {env : Platform w Page} {f : HookedFunction} {sym sym' : Kernsym w}
    {k k' : Kernel w Page} {ret : Int}
    (h : symbolHijack env f sym k = some (ret, sym', k')) :
    (ret < 0 ∧ ¬Accepted env k.text f ∧ sym'.hijacked = sym.hijacked ∧ k'.text = k.text ∧
      k'.writable = k.writable ∧ k'.stores = k.stores) ∨
    (ret = 0 ∧ Accepted env k.text f ∧ ∃ func d copies, Relocated env f k func d copies sym' k') := by
  unfold symbolHijack findSymbolAddress at h
  by_cases hfound : (env.symbol f).status < 0
  · simp only [if_pos hfound] at h
    cases h
    exact .inl ⟨hfound, fun hok => absurd hok.found (Int.not_le.mpr hfound), rfl, rfl, rfl, rfl⟩
  simp only [if_neg hfound] at h
  by_cases hjump : k.text (env.symbol f).addr = opJmpRel32
  · rw [if_pos hjump] at h
    cases h
    exact .inl ⟨by decide, fun hok => hok.not_jump hjump, rfl, rfl, rfl, rfl⟩
  rw [if_neg hjump] at h
  cases hmalloc : env.malloc f with
  | none =>
    rw [hmalloc] at h
    cases h
    refine .inl ⟨by decide, fun hok => ?_, rfl, rfl, rfl, rfl⟩
    cases hmalloc ▸ hok.allocated
  | some newAddr =>
    rw [hmalloc] at h
    simp only [relocate] at h
    by_cases hsize : (env.symbol f).size.toNat < opJmpSize
    · rw [if_pos hsize] at h
      cases h
      exact .inl ⟨by decide, fun hok => absurd hok.long_enough (Nat.not_le.mpr hsize),
        rfl, rfl, rfl, rfl⟩
    rw [if_neg hsize] at h
    by_cases hzero : (env.symbol f).addr =
        imageEnd k.text (env.symbol f).addr (env.symbol f).size
    · rw [if_pos hzero] at h
      cases h
      exact .inl ⟨by decide, fun hok => hok.not_zero hzero, rfl, rfl, rfl, rfl⟩
    rw [if_neg hzero] at h
    split at h
    · cases h
    · next hcopy =>
      cases h
      have hnot := (copyInsns_isSome_iff hcopy).not.mp Bool.false_ne_true
      exact .inl ⟨by decide, fun hok => hnot hok.decodes, rfl, rfl, rfl, rfl⟩
    · next hcopy =>
      obtain ⟨⟨sym₁, k₁⟩, hpatch, heq⟩ := Option.map_eq_some_iff.mp h
      cases heq
      exact .inr ⟨rfl, ⟨Int.not_lt.mp hfound, hjump, hmalloc ▸ rfl, Nat.not_lt.mp hsize, hzero,
        (copyInsns_isSome_iff hcopy).mp rfl⟩, _, _, _, rfl, rfl, hmalloc, hcopy, hpatch⟩

/-- A function that is accepted is patched. -/
theorem symbolHijack_cases {env : Platform w Page} {f : HookedFunction} {sym sym' : Kernsym w}
    {k k' : Kernel w Page} {ret : Int}
    (h : symbolHijack env f sym k = some (ret, sym', k')) :
    (ret < 0 ∧ ¬Accepted env k.text f ∧ sym'.hijacked = sym.hijacked ∧ k'.text = k.text ∧
      k'.writable = k.writable ∧ k'.stores = k.stores) ∨
    (ret = 0 ∧ Accepted env k.text f ∧ sym'.hijacked = true ∧
      sym'.addr = (env.symbol f).addr ∧
      sym'.origStartBytes = bytesAt k.text (env.symbol f).addr opJmpSize ∧
      Patched env (env.symbol f).addr k k') := by
  rcases symbolHijack_inv h with hno | ⟨hret, hok, func, d, copies, hrelocated⟩
  · exact .inl hno
  · obtain ⟨haddr, hhijacked, hsaved, hpatched⟩ := patchEntry_cases hrelocated.patch
    rw [← hrelocated.addr]
    exact .inr ⟨hret, hok, hhijacked, haddr, hsaved,
      hpatched.text_eq, hpatched.writable_eq, hpatched.stores_mem⟩

/-! ## No fault -/

/-- The bytes that are stored to lie in the page that is made writable. -/
def Platform.OnePage (env : Platform w Page) (addr : BitVec w) : Prop :=
  ∀ a ∈ block addr opJmpSize, env.pageOf a = env.pageOf addr

theorem patchEntry_isSome {env : Platform w Page} {sym : Kernsym w} (hpage : env.OnePage sym.addr)
    (code : BitVec w) (k : Kernel w Page) : (patchEntry env code sym k).isSome = true := by
  simp only [patchEntry, setAddrRw_text, Option.bind_eq_bind]
  have hrw : ∀ a ∈ block sym.addr opJmpSize,
      (setAddrRw env.pageApi (env.pageOf sym.addr) k).2.writable (env.pageOf a) = true :=
    fun a ha => hpage a ha ▸ setAddrRw_writable
  have hjump : ((setAddrRw env.pageApi (env.pageOf sym.addr) k).2.store env.pageOf sym.addr
      [opJmpRel32]).isSome = true :=
    store_isSome fun a ha => hrw a (block_mono _ (by decide) ha)
  obtain ⟨k₁, h₁⟩ := Option.isSome_iff_exists.mp hjump
  have hoffset : (k₁.store env.pageOf (sym.addr + BitVec.ofNat w 1)
      (u32Bytes (codeOffsetFromAddr sym.addr opJmpSize code))).isSome = true := by
    refine store_isSome fun a ha => ?_
    rw [u32Bytes_length] at ha
    rw [(store_cases h₁).2.1]
    exact hrw a (block_add_subset sym.addr 1 4 ha)
  obtain ⟨k₂, h₂⟩ := Option.isSome_iff_exists.mp hoffset
  rw [h₁, Option.bind_some, h₂]
  rfl

theorem symbolRestore_isSome {env : Platform w Page} {sym : Kernsym w}
    (hpage : sym.hijacked = true → env.OnePage sym.addr) (k : Kernel w Page) :
    (symbolRestore env sym k).isSome = true := by
  unfold symbolRestore
  split
  · next hhijacked =>
    have hstore : ((setAddrRw env.pageApi (env.pageOf sym.addr) k).2.store env.pageOf sym.addr
        sym.origStartBytes).isSome = true := by
      refine store_isSome fun a ha => ?_
      rw [sym.origStartBytes_length] at ha
      rw [hpage hhijacked a ha]
      exact setAddrRw_writable
    obtain ⟨k₁, h₁⟩ := Option.isSome_iff_exists.mp hstore
    simp only [Option.bind_eq_bind, h₁, Option.bind_some, Option.isSome_some]
  · rfl

theorem symbolHijack_isSome {env : Platform w Page} {f : HookedFunction}
    (hfound : 0 ≤ (env.symbol f).status → env.OnePage (env.symbol f).addr ∧
      (env.symbol f).addr.toNat + (env.symbol f).size.toNat + 255 ≤ 2 ^ w)
    (sym : Kernsym w) (k : Kernel w Page) : (symbolHijack env f sym k).isSome = true := by
  unfold symbolHijack findSymbolAddress
  by_cases hstatus : (env.symbol f).status < 0
  · simp only [if_pos hstatus]
    rfl
  obtain ⟨hpage, hfits⟩ := hfound (Int.not_lt.mp hstatus)
  have hend : (imageEnd k.text (env.symbol f).addr (env.symbol f).size).toNat ≤
      (env.symbol f).addr.toNat + (env.symbol f).size.toNat := imageEnd_le (by omega)
  have hlast : (imageEnd k.text (env.symbol f).addr (env.symbol f).size).toNat + 255 ≤ 2 ^ w := by
    omega
  simp only [if_neg hstatus]
  split
  · rfl
  split
  · rfl
  unfold relocate
  split
  · rfl
  simp only
  split
  · rfl
  split
  · next hnone =>
    exact absurd hnone (Option.isSome_iff_ne_none.mp (copyInsns_isSome hlast hend _ _))
  · rfl
  · rw [Option.isSome_map]
    refine patchEntry_isSome ?_ _ _
    exact hpage

end RtBackup
