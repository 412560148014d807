import RtBackup.Hijacks
import RtBackup.Lib.FirstPair
import RtBackup.Lib.TextFields

/-!
# The addresses of symbols from files (`symbols.c`)

On kernels before 2.6.30, `find_symbol_address` reads `/proc/kallsyms` and then
`/boot/System.map-` of the running kernel. The files are read byte by byte into one
buffer of 256 bytes; at the end of a line the line is compared with the symbol, or, if the
symbol was found in the line before, gives its end. The mark that the symbol was found is
kept in the symbol, and is not taken back between the two files.

Results:
1. `isLineOf_text`: which lines are taken for the symbol.
2. `scanFile_image`: the scanner is a search of the lines of one file.
3. `findSymbolAddress_image`: the whole function is a search of both files as if they
   were joined.
4. `range_from_one_table_iff`: when the range comes from one table.
-/

namespace RtBackup.Symbols

open ByteFile Blocks FirstPair TextFields

variable {w : Nat}

/-! ## `find_symbol_address` -/

/-- `MAX_FILE_LEN`. -/
def maxFileLen : Nat := 256

def newline : UInt8 := 10
def space : UInt8 := 32
def minus : UInt8 := 45
def underscore : UInt8 := 95

/-- `/proc/kallsyms`. -/
def kallsymsPath : Bytes := [47, 112, 114, 111, 99, 47, 107, 97, 108, 108, 115, 121, 109, 115]

/-- `SYSTEM_MAP_PATH`, `/boot/System.map-`. -/
def systemMapPath : Bytes :=
  [47, 98, 111, 111, 116, 47, 83, 121, 115, 116, 101, 109, 46, 109, 97, 112, 45]

/-- `struct kernsym`, with the fields that only the search uses. -/
structure Symbol (w : Nat) extends Kernsym w where
  name : CString := ⟨[], List.not_mem_nil⟩
  found : Bool := false

/-- The allocations of the search. -/
inductive Alloc where
  /-- `sys_string` for the line of the symbol. -/
  | addr (file : Bytes)
  /-- `sys_string` for the line behind it. -/
  | endAddr (file : Bytes)
  | filename

/-- The machine that the module runs on. -/
structure Host where
  /-- `filp_open`, with the content of a file or the error. -/
  filpOpen : Bytes → Except Int Bytes
  filpOpen_error : ∀ file e, filpOpen file = .error e → e < 0
  /-- Whether `kmalloc` gives memory. -/
  kmalloc : Alloc → Bool
  /-- `utsname()->release`. -/
  release : CString

/-- `str2long` with base 16. -/
def str2long (cp : Bytes) : BitVec w :=
  if cp.head? = some minus then (-simpleStrtoull (cp.drop 1)).setWidth w
  else (simpleStrtoull cp).setWidth w

/-- The variables of `find_symbol_address_from_file`. `p` is an offset in `buf`. -/
structure Scan (w : Nat) where
  buf : Bytes
  p : Nat
  i : Nat
  sym : Symbol w

/-- At the start of a line: `i = 0`, and `buf` is cleared. -/
def Scan.start (p : Nat) (sym : Symbol w) : Scan w := ⟨zeros maxFileLen, p, 0, sym⟩

/-- `substr != NULL && substr[-1] == ' ' && substr[strlen(sym->name)+1] == '\0'`. -/
def isLineOf (name : CString) (buf : Bytes) (p : Nat) : Option Bool := do
  let line ← stringIn buf p maxFileLen
  match strstr name.bytes line with
  | none => pure false
  | some k =>
    -- `substr[-1]` is outside of `buf` if the name is at its start
    let before ← if p + k = 0 then none else buf[p + k - 1]?
    if before ≠ space then pure false
    else
      let after ← buf[p + k + name.bytes.length + 1]?
      pure (decide (after = 0))

/-- The line of the symbol. `strsep` leaves `p` behind the address. -/
def symbolLine (host : Host) (file buf : Bytes) (p : Nat) (sym : Symbol w) :
    Option (Scan w ⊕ Int × Symbol w) := do
  if host.kmalloc (.addr file) then
    let (field, next) ← strsep space buf p
    let p ← next
    pure (.inl (.start p { sym with addr := str2long field, found := true }))
  else pure (.inr (-ENOMEM, sym))

/-- The line behind the line of the symbol. -/
def endLine (host : Host) (file buf : Bytes) (p : Nat) (sym : Symbol w) :
    Option (Scan w ⊕ Int × Symbol w) := do
  if host.kmalloc (.endAddr file) then
    let (field, _) ← strsep space buf p
    let endAddr := str2long field
    pure (.inr (0, { sym with
      endAddr := endAddr
      size := endAddr - sym.addr
      newSize := endAddr - sym.addr }))
  else pure (.inr (-ENOMEM, sym))

/-- The body of the loop at the end of a line. -/
def lineRead (host : Host) (file buf : Bytes) (p : Nat) (sym : Symbol w) :
    Option (Scan w ⊕ Int × Symbol w) :=
  if sym.found then endLine host file buf p sym
  else do
    if ← isLineOf sym.name buf p then symbolLine host file buf p sym
    else pure (.inl (.start p sym))

/-- The body of the loop, for a byte that `vfs_read` has read to `p + i`. -/
def scanByte (host : Host) (file : Bytes) (s : Scan w) (b : UInt8) :
    Option (Scan w ⊕ Int × Symbol w) := do
  let buf ← store s.buf (s.p + s.i) [b]
  if b = newline ∨ s.i = maxFileLen - 1 then lineRead host file buf s.p s.sym
  else pure (.inl { s with buf := buf, i := s.i + 1 })

/-- The loop over the bytes of the file. -/
def scanFile (host : Host) (file : Bytes) : Scan w → Bytes → Option (Int × Symbol w)
  | s, [] => some (-EFAULT, s.sym)
  | s, b :: content => do
    match ← scanByte host file s b with
    | .inl s => scanFile host file s content
    | .inr res => some res

def findSymbolAddressFromFile (host : Host) (file : Bytes) (sym : Symbol w) :
    Option (Int × Symbol w) :=
  match host.filpOpen file with
  | .error e => some (e, sym)
  | .ok content => scanFile host file (.start 0 sym) content

/-- `find_symbol_address`. Nothing is returned if memory outside of the buffer is
accessed. -/
def findSymbolAddress (host : Host) (sym : Symbol w) (symbolName : CString) :
    Option (Int × Symbol w) := do
  let sym := { sym with name := symbolName }
  let (ret, sym) ← findSymbolAddressFromFile host kallsymsPath sym
  if ret < 0 then
    if host.kmalloc .filename then
      let file := systemMapPath ++ host.release.bytes
      let (ret, sym) ← findSymbolAddressFromFile host file sym
      pure (ret, { sym with run := sym.addr })
    else pure (-ENOMEM, sym)
  else pure (ret, { sym with run := sym.addr })

/-! ## What the search changes -/

section

variable {host : Host} {file content : Bytes} {sym : Symbol w} {k : Kernsym w}

/-- All that one byte does to the symbol. -/
theorem scanByte_cases {s : Scan w} {b : UInt8} {res : Scan w ⊕ Int × Symbol w}
    (h : scanByte host file s b = some res) :
    (∃ s', res = .inl s' ∧ s'.sym = s.sym) ∨
    (∃ s' a, res = .inl s' ∧ s'.sym = { s.sym with addr := a, found := true }) ∨
    res = .inr (-ENOMEM, s.sym) ∨
    ∃ e, res = .inr (0, { s.sym with
      endAddr := e
      size := e - s.sym.addr
      newSize := e - s.sym.addr }) := by
  obtain ⟨buf, -, h⟩ := Option.bind_eq_some_iff.mp h
  split at h
  · unfold lineRead at h
    split at h
    · unfold endLine at h
      split at h
      · obtain ⟨⟨field, next⟩, -, h⟩ := Option.bind_eq_some_iff.mp h
        exact .inr (.inr (.inr ⟨str2long field, (Option.some.inj h).symm⟩))
      · exact .inr (.inr (.inl (Option.some.inj h).symm))
    · obtain ⟨isLine, -, h⟩ := Option.bind_eq_some_iff.mp h
      split at h
      · unfold symbolLine at h
        split at h
        · obtain ⟨⟨field, next⟩, -, h⟩ := Option.bind_eq_some_iff.mp h
          obtain ⟨p, -, h⟩ := Option.bind_eq_some_iff.mp h
          exact .inr (.inl ⟨_, str2long field, (Option.some.inj h).symm, rfl⟩)
        · exact .inr (.inr (.inl (Option.some.inj h).symm))
      · exact .inl ⟨_, (Option.some.inj h).symm, rfl⟩
  · exact .inl ⟨_, (Option.some.inj h).symm, rfl⟩

/-- What a search has left of the symbol `k`, with the answer. -/
def Answered (k : Kernsym w) (ret : Int) (sym : Symbol w) : Prop :=
  if ret = 0 then
    sym.toKernsym = { k with
      addr := sym.addr
      endAddr := sym.endAddr
      size := sym.endAddr - sym.addr
      newSize := sym.endAddr - sym.addr }
  else sym.toKernsym = { k with addr := sym.addr }

theorem scanFile_answered {s : Scan w} {ret : Int}
    (hk : s.sym.toKernsym = { k with addr := s.sym.addr })
    (h : scanFile host file s content = some (ret, sym)) : Answered k ret sym := by
  induction content generalizing s with
  | nil =>
    cases h
    exact hk
  | cons b content ih =>
    obtain ⟨res, hres, h⟩ := Option.bind_eq_some_iff.mp h
    rcases scanByte_cases hres with ⟨s', rfl, hs'⟩ | ⟨s', a, rfl, hs'⟩ | rfl | ⟨e, rfl⟩
    · exact ih (by rw [hs']; exact hk) h
    · refine ih ?_ h
      rw [hs']
      exact congrArg (fun k' : Kernsym w => { k' with addr := a }) hk
    · cases h
      exact hk
    · cases h
      rw [Answered, if_pos rfl]
      exact congrArg (fun k' : Kernsym w =>
        { k' with endAddr := e, size := e - s.sym.addr, newSize := e - s.sym.addr }) hk

theorem findSymbolAddressFromFile_answered {ret : Int} {sym' : Symbol w}
    (h : findSymbolAddressFromFile host file sym = some (ret, sym'))
    (hk : sym.toKernsym = { k with addr := sym.addr }) : Answered k ret sym' := by
  unfold findSymbolAddressFromFile at h
  split at h
  · next e hopen =>
    cases h
    rw [Answered, if_neg (host.filpOpen_error _ _ hopen).ne]
    exact hk
  · exact scanFile_answered hk h

theorem Answered.run {ret : Int} (h : Answered k ret sym) (hret : ret = 0) :
    RtBackup.findSymbolAddress ⟨0, sym.addr, sym.endAddr⟩ k =
      (0, { sym.toKernsym with run := sym.addr }) := by
  rw [Answered, if_pos hret] at h
  rw [h]
  rfl

/-- A search that succeeds fills in the symbol as `symbol_hijack` expects it. -/
theorem findSymbolAddress_answer {name : CString} {sym' : Symbol w}
    (h : findSymbolAddress host sym name = some (0, sym')) :
    RtBackup.findSymbolAddress ⟨0, sym'.addr, sym'.endAddr⟩ sym.toKernsym =
      (0, sym'.toKernsym) := by
  obtain ⟨⟨ret, sym₁⟩, hfirst, h⟩ := Option.bind_eq_some_iff.mp h
  have hanswer : Answered sym.toKernsym ret sym₁ :=
    findSymbolAddressFromFile_answered hfirst rfl
  simp only at h
  split at h
  · next hneg =>
    split at h
    · obtain ⟨⟨ret', sym₂⟩, hsecond, h⟩ := Option.bind_eq_some_iff.mp h
      rw [Answered, if_neg hneg.ne] at hanswer
      cases h
      exact (findSymbolAddressFromFile_answered hsecond hanswer).run rfl
    · cases h
  · cases h
    exact hanswer.run rfl

end

/-! ## The tables -/

/-- A line of a table, `<hex address> <type letter> <name>`. -/
structure MapLine where
  digits : Bytes
  digits_hex : IsHex digits
  digits_le : digits.length ≤ 16
  letter : UInt8
  letter_ne : letter ∉ [0, newline, space, underscore]
  name : CString
  newline_not_mem : newline ∉ name.bytes
  space_not_mem : space ∉ name.bytes
  short : digits.length + 3 + name.bytes.length < 230

/-- The line up to its name. -/
def MapLine.front (l : MapLine) : Bytes := l.digits ++ [space, l.letter, space]

def MapLine.text (l : MapLine) : Bytes := l.front ++ l.name.bytes

def MapLine.address (w : Nat) (l : MapLine) : BitVec w := BitVec.ofNat w (hexValue l.digits)

/-- The content of a file. -/
def image (lines : List MapLine) : Bytes := lines.flatMap fun l => l.text ++ [newline]

def IsLineOf (name : CString) (l : MapLine) : Prop := l.name = name

instance instDecidablePredIsLineOf (name : CString) : DecidablePred (IsLineOf name) :=
  fun l => inferInstanceAs (Decidable (l.name = name))

/-- The first line of a symbol that has a line behind it, and that line. -/
def pairIn (name : CString) (lines : List MapLine) : Option (MapLine × MapLine) :=
  firstPair (IsLineOf name) lines

/-- The names that are looked for. -/
structure IsSymbolName (name : CString) : Prop where
  underscore_mem : underscore ∈ name.bytes
  newline_not_mem : newline ∉ name.bytes
  space_not_mem : space ∉ name.bytes

namespace MapLine

variable {l : MapLine} {name : CString}

theorem length_front : l.front.length = l.digits.length + 3 := by
  rw [front, List.length_append]
  rfl

theorem length_text : l.text.length < 230 := by
  rw [text, List.length_append, length_front]
  exact l.short

theorem not_mem_front {b : UInt8} (hhex : hexDigit b = none) (hspace : b ≠ space)
    (hletter : b ≠ l.letter) : b ∉ l.front := by
  simp [front, l.digits_hex.not_mem hhex, hspace, hletter]

theorem zero_not_mem_text : 0 ∉ l.text := by
  have hletter : 0 ≠ l.letter := fun h => l.letter_ne (by simp [← h])
  rw [text, List.mem_append, not_or]
  exact ⟨not_mem_front (by decide) (by decide) hletter, l.name.noNul⟩

theorem newline_not_mem_text : newline ∉ l.text := by
  have hletter : newline ≠ l.letter := fun h => l.letter_ne (by simp [← h])
  rw [text, List.mem_append, not_or]
  exact ⟨not_mem_front (by decide) (by decide) hletter, l.newline_not_mem⟩

/-- A symbol is not found in front of the name of a line. -/
theorem strstr_text (hname : IsSymbolName name) {rest : Bytes} :
    strstr name.bytes (l.text ++ rest) =
      (strstr name.bytes (l.name.bytes ++ rest)).map (· + l.front.length) := by
  have hdigits : underscore ∉ l.digits := l.digits_hex.not_mem (by decide)
  have hletter : underscore ∉ [l.letter] := fun h =>
    l.letter_ne (by simp [← List.mem_singleton.mp h])
  have htext : l.text ++ rest =
      l.digits ++ space :: ([l.letter] ++ space :: (l.name.bytes ++ rest)) := by
    simp [text, front]
  rw [htext, strstr_skip hname.space_not_mem hname.underscore_mem hdigits,
    strstr_skip hname.space_not_mem hname.underscore_mem hletter, Option.map_map, length_front]
  refine congrArg (Option.map · _) (funext fun k => ?_)
  simp only [Function.comp_apply, List.length_singleton]
  omega

theorem getElem?_front {rest : Bytes} : (l.text ++ rest)[l.front.length - 1]? = some space := by
  rw [text, front, List.append_assoc, List.length_append]
  simp

theorem getElem?_name {rest : Bytes} (k : Nat) :
    (l.text ++ rest)[l.front.length + k]? = (l.name.bytes ++ rest)[k]? := by
  rw [text, List.append_assoc, List.getElem?_append_right (Nat.le_add_right _ _),
    Nat.add_sub_cancel_left]

end MapLine

/-- The second byte behind the symbol at the start of a name. -/
theorem getElem?_behind {name s : CString} {rest : Bytes} (hs : s.bytes = name.bytes ++ rest)
    (n : Nat) : ∃ b, (s.bytes ++ newline :: zeros (n + 1))[name.bytes.length + 1]? = some b ∧
      (b = 0 ↔ s = name) := by
  have hbyte : (s.bytes ++ newline :: zeros (n + 1))[name.bytes.length + 1]? =
      (rest ++ newline :: zeros (n + 1))[1]? := by
    rw [hs, List.append_assoc, List.getElem?_append_right (Nat.le_add_right _ _),
      Nat.add_sub_cancel_left]
  rw [hbyte]
  cases rest with
  | nil =>
    rw [List.append_nil] at hs
    exact ⟨0, rfl, fun _ => CString.ext hs, fun _ => rfl⟩
  | cons c rest =>
    have hne : s ≠ name := by
      rintro rfl
      have hlen := congrArg List.length hs
      rw [List.length_append, List.length_cons] at hlen
      omega
    cases rest with
    | nil => exact ⟨newline, rfl, fun h => absurd h (by decide), fun h => absurd h hne⟩
    | cons d rest =>
      have hd : d ∈ s.bytes := by simp [hs]
      exact ⟨d, rfl, fun h => absurd (h ▸ hd) s.noNul, fun h => absurd h hne⟩

/-- A symbol that is found behind the start of a name has no space in front of it. -/
theorem MapLine.getElem?_skipped {l : MapLine} {skipped rest z : Bytes} {k : Nat}
    (hl : l.name.bytes = skipped ++ rest) (hk : skipped.length = k + 1) :
    ∃ b, (l.text ++ z)[l.front.length + k]? = some b ∧ b ≠ space := by
  have hlt : k < skipped.length := by omega
  refine ⟨skipped[k], ?_, ?_⟩
  · rw [l.getElem?_name, hl, List.append_assoc, List.getElem?_append_left hlt,
      List.getElem?_eq_getElem hlt]
  · have hmem : skipped[k] ∈ l.name.bytes := hl ▸ List.mem_append_left _ (List.getElem_mem hlt)
    exact ne_of_mem_of_not_mem hmem l.space_not_mem

theorem MapLine.stringIn_text (l : MapLine) (n : Nat) :
    stringIn (l.text ++ newline :: zeros (n + 1)) 0 maxFileLen = some (l.text ++ [newline]) := by
  have hlen := l.length_text
  refine stringIn_eq_some_iff.mpr ⟨[], zeros n, ?_, rfl, ?_, ?_⟩
  · rw [List.nil_append, List.append_assoc]
    rfl
  · rw [List.mem_append, not_or]
    exact ⟨l.zero_not_mem_text, by decide⟩
  · rw [List.length_append, List.length_singleton, maxFileLen]
    omega

/-- A line is taken for the symbol exactly if it has its name. -/
theorem isLineOf_text {l : MapLine} {name : CString} (hname : IsSymbolName name) (n : Nat) :
    isLineOf name (l.text ++ newline :: zeros (n + 1)) 0 = some (decide (IsLineOf name l)) := by
  have hself (h : IsLineOf name l) : strstr name.bytes (l.name.bytes ++ [newline]) = some 0 :=
    strstr_at_start (h ▸ List.prefix_append _ _)
  have hpos : 0 < l.front.length := l.length_front ▸ Nat.succ_pos _
  rw [isLineOf, l.stringIn_text, Option.bind_eq_bind, Option.bind_some, l.strstr_text hname]
  cases hfound : strstr name.bytes (l.name.bytes ++ [newline]) with
  | none =>
    rw [decide_eq_false fun h => by rw [hself h] at hfound; cases hfound]
    rfl
  | some k =>
    obtain ⟨skipped, rest, hl, hk⟩ := strstr_line hname.newline_not_mem
      (List.ne_nil_of_mem hname.underscore_mem) hfound
    simp only [Option.map_some, Nat.zero_add]
    rw [if_neg (by omega)]
    cases k with
    | zero =>
      -- the name of the line starts with the symbol
      obtain rfl := List.eq_nil_of_length_eq_zero hk
      obtain ⟨b, hb, hzero⟩ := getElem?_behind hl n
      have hafter : (l.text ++ newline :: zeros (n + 1))[l.front.length + name.bytes.length + 1]? =
          some b := by rw [Nat.add_assoc, l.getElem?_name, hb]
      rw [Nat.zero_add, l.getElem?_front, hafter]
      exact congrArg some (decide_eq_decide.mpr hzero)
    | succ k =>
      obtain ⟨b, hb, hspace⟩ := l.getElem?_skipped (z := newline :: zeros (n + 1)) hl hk
      have hidx : k + 1 + l.front.length - 1 = l.front.length + k := by omega
      rw [hidx, hb, decide_eq_false fun h => by rw [hself h] at hfound; cases hfound]
      exact if_pos hspace

theorem MapLine.str2long_digits (l : MapLine) : str2long l.digits = l.address w := by
  have hhead : l.digits.head? ≠ some minus := fun h =>
    l.digits_hex.not_mem (b := minus) (by decide) (List.mem_of_head? h)
  have hlt : hexValue l.digits < 2 ^ 64 :=
    calc hexValue l.digits < 1 * 16 ^ l.digits.length :=
          hexValueFrom_lt l.digits_hex Nat.zero_lt_one
      _ ≤ 1 * 16 ^ 16 := Nat.mul_le_mul_left 1 (Nat.pow_le_pow_right (by decide) l.digits_le)
  rw [str2long, if_neg hhead, simpleStrtoull_eq l.digits_hex, address]
  apply BitVec.eq_of_toNat_eq
  rw [BitVec.toNat_setWidth, BitVec.toNat_ofNat, BitVec.toNat_ofNat, Nat.mod_eq_of_lt hlt]

theorem MapLine.strsep_text (l : MapLine) (p : Nat) (z : Bytes) :
    strsep space (zeros p ++ (l.text ++ z)) p =
      some (l.digits, some (p + l.digits.length + 1)) := by
  have htext : l.text ++ z = l.digits ++ space :: (l.letter :: space :: (l.name.bytes ++ z)) := by
    simp [text, front]
  rw [htext]
  exact strsep_append (length_zeros p) fun b hb =>
    ⟨ne_of_mem_of_not_mem hb (l.digits_hex.not_mem (by decide)),
      ne_of_mem_of_not_mem hb (l.digits_hex.not_mem (by decide))⟩

/-! ## The end of a line -/

section

variable {host : Host} {file : Bytes} {l : MapLine} {sym : Symbol w} {p n : Nat} {z : Bytes}

theorem lineRead_found (hfound : sym.found = true) (hmem : host.kmalloc (.endAddr file) = true) :
    lineRead host file (zeros p ++ (l.text ++ z)) p sym =
      some (.inr (0, { sym with
        endAddr := l.address w
        size := l.address w - sym.addr
        newSize := l.address w - sym.addr })) := by
  rw [lineRead, if_pos hfound, endLine, if_pos hmem, l.strsep_text]
  simp only [Option.bind_eq_bind, Option.bind_some, l.str2long_digits]
  rfl

theorem lineRead_other (hname : IsSymbolName sym.name) (hfound : sym.found = false)
    (hl : ¬ IsLineOf sym.name l) :
    lineRead host file (l.text ++ newline :: zeros (n + 1)) 0 sym =
      some (.inl (.start 0 sym)) := by
  rw [lineRead, hfound, isLineOf_text hname, decide_eq_false hl]
  rfl

theorem lineRead_name (hname : IsSymbolName sym.name) (hfound : sym.found = false)
    (hl : IsLineOf sym.name l) (hmem : host.kmalloc (.addr file) = true) :
    lineRead host file (l.text ++ newline :: zeros (n + 1)) 0 sym =
      some (.inl (.start (l.digits.length + 1)
        { sym with addr := l.address w, found := true })) := by
  have hsep := l.strsep_text 0 (newline :: zeros (n + 1))
  rw [Nat.zero_add] at hsep
  have hline : symbolLine host file (l.text ++ newline :: zeros (n + 1)) 0 sym =
      some (.inl (.start (l.digits.length + 1)
        { sym with addr := l.address w, found := true })) := by
    rw [symbolLine, if_pos hmem, ← l.str2long_digits]
    exact congrArg (Option.bind · _) hsep
  rw [lineRead, hfound, isLineOf_text hname, decide_eq_true hl]
  exact hline

end

/-! ## The bytes of a line -/

section

variable {host : Host} {file bs rest x : Bytes} {s : Scan w} {b : UInt8} {n : Nat}

theorem scanByte_eq (hbuf : s.buf = x ++ zeros (n + 1)) (hx : x.length = s.p + s.i) :
    scanByte host file s b =
      if b = newline ∨ s.i = maxFileLen - 1 then
        lineRead host file (x ++ b :: zeros n) s.p s.sym
      else some (.inl { s with buf := x ++ b :: zeros n, i := s.i + 1 }) := by
  have hstore : store s.buf (s.p + s.i) [b] = some (x ++ b :: zeros n) := by
    rw [hbuf]
    exact store_append (y := [0]) hx rfl
  rw [scanByte, hstore]
  rfl

/-- The bytes of a line are put into the buffer. -/
theorem scanFile_bytes (hbs : newline ∉ bs) (hbuf : s.buf = x ++ zeros (bs.length + n))
    (hx : x.length = s.p + s.i) (hi : s.i + bs.length < maxFileLen) :
    scanFile host file s (bs ++ rest) =
      scanFile host file ⟨x ++ (bs ++ zeros n), s.p, s.i + bs.length, s.sym⟩ rest := by
  induction bs generalizing s x with
  | nil =>
    rw [List.length_nil, Nat.zero_add] at hbuf
    rw [List.nil_append, List.nil_append, List.length_nil, Nat.add_zero, ← hbuf]
  | cons b bs ih =>
    rw [List.length_cons] at hi
    obtain ⟨hb, hbs⟩ := not_or.mp (mt List.mem_cons.mpr hbs)
    have hbuf' : s.buf = x ++ zeros (bs.length + n + 1) := by
      rw [hbuf, List.length_cons, Nat.add_right_comm]
    have hchar : ¬ (b = newline ∨ s.i = maxFileLen - 1) := by
      rintro (h | h)
      · exact hb h.symm
      · omega
    rw [List.cons_append, scanFile, scanByte_eq hbuf' hx, if_neg hchar]
    refine (ih (x := x ++ [b]) hbs ?_ ?_ ?_).trans ?_
    · rw [List.append_assoc]
      rfl
    · rw [List.length_append, hx]
      rfl
    · change s.i + 1 + bs.length < maxFileLen
      omega
    · rw [List.append_assoc, List.length_cons, Nat.add_assoc, Nat.add_comm 1]
      rfl

end

/-- The buffer at the end of a line. -/
def lineBuf (p : Nat) (l : MapLine) : Bytes :=
  zeros p ++ (l.text ++ newline :: zeros (maxFileLen - p - l.text.length - 2 + 1))

/-- A line is read whole, also behind a field that was split off. -/
theorem scanFile_line {host : Host} {file rest : Bytes} {l : MapLine} {sym : Symbol w} {p : Nat}
    (hp : p ≤ 17) :
    scanFile host file (.start p sym) (l.text ++ newline :: rest) =
      (lineRead host file (lineBuf p l) p sym).bind fun
        | .inl s => scanFile host file s rest
        | .inr res => some res := by
  have hlen := l.length_text
  have hmax : maxFileLen = 256 := rfl
  have hbuf : zeros maxFileLen =
      zeros p ++ zeros (l.text.length + (maxFileLen - p - l.text.length - 2 + 1 + 1)) := by
    rw [← zeros_add]
    exact congrArg zeros (by omega)
  have hread : scanFile host file (.start p sym) (l.text ++ newline :: rest) =
      scanFile host file
        ⟨zeros p ++ (l.text ++ zeros (maxFileLen - p - l.text.length - 2 + 1 + 1)), p,
          0 + l.text.length, sym⟩ (newline :: rest) :=
    scanFile_bytes l.newline_not_mem_text hbuf (length_zeros p) (by
      change 0 + l.text.length < maxFileLen
      omega)
  rw [hread, scanFile, scanByte_eq (x := zeros p ++ l.text) (List.append_assoc _ _ _).symm,
    if_pos (.inl rfl), List.append_assoc]
  · rfl
  · rw [List.length_append, length_zeros]
    exact congrArg (p + ·) (Nat.zero_add _).symm

/-! ## The scanner is a search -/

/-- The scanner at the start of a line. The symbol holds the line that was found. -/
structure Tracks (name : CString) (found : Option MapLine) (p : Nat) (sym : Symbol w) : Prop where
  name_eq : sym.name = name
  found_eq : sym.found = found.isSome
  addr_eq : ∀ a, found = some a → sym.addr = a.address w
  p_le : p ≤ 17
  p_eq : found = none → p = 0

/-- What is returned for the outcome of a search. -/
def Returns (name : CString) (ret : Int) (sym : Symbol w) : Outcome MapLine → Prop
  | .pair a b => ret = 0 ∧ sym.addr = a.address w ∧ sym.endAddr = b.address w
  | .pending found => ret = -EFAULT ∧ Tracks name found 0 sym

theorem Returns.run {name : CString} {ret : Int} {sym : Symbol w} {o : Outcome MapLine}
    (h : Returns name ret sym o) (r : BitVec w) : Returns name ret { sym with run := r } o := by
  cases o with
  | pair a b => exact h
  | pending found => exact ⟨h.1, { h.2 with }⟩

/-- A row found in one file is still held at the start of the next. -/
theorem Tracks.restart {name : CString} {found : Option MapLine} {p : Nat} {sym : Symbol w}
    (h : Tracks name found p sym) : Tracks name found 0 sym :=
  { h with p_le := Nat.zero_le 17, p_eq := fun _ => rfl }

section

variable {host : Host} {name : CString} {sym : Symbol w}

/-- One step for each line: the line that a search looks at, or that ends it. -/
theorem scanFile_image (file : Bytes) (hname : IsSymbolName name)
    (hmem : ∀ a, host.kmalloc a = true) {found : Option MapLine} {p : Nat}
    (ht : Tracks name found p sym) (lines : List MapLine) :
    ∃ ret sym', scanFile host file (.start p sym) (image lines) = some (ret, sym') ∧
      Returns name ret sym' (search (IsLineOf name) found lines) := by
  induction lines generalizing found p sym with
  | nil => exact ⟨-EFAULT, sym, rfl, rfl, ht.restart⟩
  | cons l lines ih =>
    have himage : image (l :: lines) = l.text ++ newline :: image lines := by
      rw [image, List.flatMap_cons, List.append_assoc]
      rfl
    have hfound := ht.found_eq
    rw [himage, scanFile_line ht.p_le]
    cases found with
    | some a =>
      rw [lineBuf, lineRead_found hfound (hmem _)]
      exact ⟨0, _, rfl, rfl, ht.addr_eq a rfl, rfl⟩
    | none =>
      obtain rfl := ht.p_eq rfl
      obtain rfl := ht.name_eq
      by_cases hl : IsLineOf sym.name l
      · have hline : lineRead host file (lineBuf 0 l) 0 sym = _ :=
          lineRead_name hname hfound hl (hmem _)
        have hp : l.digits.length + 1 ≤ 17 := Nat.succ_le_succ l.digits_le
        rw [search_cons_of_pos hl, hline]
        exact ih ⟨rfl, rfl, fun a ha => Option.some.inj ha ▸ rfl, hp, by simp⟩
      · have hline : lineRead host file (lineBuf 0 l) 0 sym = _ :=
          lineRead_other hname hfound hl
        rw [search_cons_of_neg hl, hline]
        exact ih ht

theorem findSymbolAddressFromFile_image {file : Bytes} {lines : List MapLine}
    (hname : IsSymbolName name) (hmem : ∀ a, host.kmalloc a = true)
    (hopen : host.filpOpen file = .ok (image lines)) {found : Option MapLine} {p : Nat}
    (ht : Tracks name found p sym) :
    ∃ ret sym', findSymbolAddressFromFile host file sym = some (ret, sym') ∧
      Returns name ret sym' (search (IsLineOf name) found lines) := by
  rw [findSymbolAddressFromFile, hopen]
  exact scanFile_image file hname hmem ht.restart lines

variable {ks ms : List MapLine}

/-- The row that `/proc/kallsyms` ends with is carried into `System.map`. -/
theorem findSymbolAddress_image (hname : IsSymbolName name) (hmem : ∀ a, host.kmalloc a = true)
    (hks : host.filpOpen kallsymsPath = .ok (image ks))
    (hms : host.filpOpen (systemMapPath ++ host.release.bytes) = .ok (image ms))
    (hfresh : sym.found = false) :
    ∃ ret sym', findSymbolAddress host sym name = some (ret, sym') ∧
      Returns name ret sym' (search (IsLineOf name) none (ks ++ ms)) := by
  have hstart : Tracks name none 0 { sym with name := name } :=
    ⟨rfl, hfresh, by simp, Nat.zero_le 17, fun _ => rfl⟩
  obtain ⟨ret, sym₁, hfirst, hret⟩ := findSymbolAddressFromFile_image hname hmem hks hstart
  cases houtcome : search (IsLineOf name) none ks with
  | pair a b =>
    rw [houtcome] at hret
    have hanswer := hret.run sym₁.addr
    obtain ⟨rfl, -⟩ := hret
    rw [findSymbolAddress, hfirst, search_append_of_pair houtcome]
    exact ⟨0, _, rfl, hanswer⟩
  | pending found =>
    rw [houtcome] at hret
    obtain ⟨rfl, ht⟩ := hret
    obtain ⟨ret, sym₂, hsecond, hret⟩ := findSymbolAddressFromFile_image hname hmem hms ht
    refine ⟨ret, { sym₂ with run := sym₂.addr }, ?_, ?_⟩
    · rw [findSymbolAddress, hfirst]
      simp only [Option.bind_eq_bind, Option.bind_some, hmem, hsecond]
      rfl
    · rw [search_append houtcome]
      exact hret.run sym₂.addr

/-! ## The range of a symbol -/

/-- Some line of a symbol has a line behind it. -/
def Followed (name : CString) (lines : List MapLine) : Prop :=
  ∃ front a b rest, lines = front ++ a :: b :: rest ∧ IsLineOf name a

/-- The answer is right if the range is taken from the first table that has it. -/
def FromOneTable (name : CString) (ks ms : List MapLine) (ret : Int) (sym : Symbol w) : Prop :=
  (ret = 0 ↔ Followed name ks ∨ Followed name ms) ∧
    ∀ a b, (pairIn name ks).or (pairIn name ms) = some (a, b) →
      sym.addr = a.address w ∧ sym.endAddr = b.address w

/-- The range from `a` to `b` is also the one that a table gives. -/
def GivesRange (w : Nat) (name : CString) (lines : List MapLine) (a b : MapLine) : Prop :=
  ∃ a' b', pairIn name lines = some (a', b') ∧ a'.address w = a.address w ∧
    b'.address w = b.address w

theorem pairIn_of_pending {lines : List MapLine} {found : Option MapLine}
    (h : search (IsLineOf name) none lines = .pending found) : pairIn name lines = none := by
  cases hpair : pairIn name lines with
  | none => rfl
  | some ab =>
    rw [search_eq_pair_iff.mpr hpair] at h
    cases h

theorem followed_or_iff : Followed name ks ∨ Followed name ms ↔
    ((pairIn name ks).or (pairIn name ms)).isSome := by
  rw [Option.isSome_or, Bool.or_eq_true]
  exact or_congr firstPair_isSome_iff.symm firstPair_isSome_iff.symm

/-- An answer from the table in which a search ends. -/
theorem fromOneTable_of_search {lines : List MapLine} {ret : Int} {sym : Symbol w}
    (hlines : (pairIn name ks).or (pairIn name ms) = pairIn name lines)
    (hret : Returns name ret sym (search (IsLineOf name) none lines)) :
    FromOneTable name ks ms ret sym := by
  unfold FromOneTable
  rw [followed_or_iff, hlines]
  cases houtcome : search (IsLineOf name) none lines with
  | pair a b =>
    rw [houtcome] at hret
    obtain ⟨rfl, haddr, hend⟩ := hret
    rw [show pairIn name lines = some (a, b) from search_eq_pair_iff.mp houtcome]
    refine ⟨⟨fun _ => rfl, fun _ => rfl⟩, fun a' b' h => ?_⟩
    cases h
    exact ⟨haddr, hend⟩
  | pending found =>
    rw [houtcome] at hret
    obtain ⟨rfl, -⟩ := hret
    rw [pairIn_of_pending houtcome]
    refine ⟨⟨fun h => absurd h (by decide), ?_⟩, ?_⟩
    · intro h
      cases h
    · intro a b h
      cases h

/-- A symbol that is found in the last line of a table. -/
def EndsWith (name : CString) (lines : List MapLine) (a : MapLine) : Prop :=
  ∃ front, lines = front ++ [a] ∧ IsLineOf name a ∧ ∀ l ∈ front, ¬ IsLineOf name l

/-- Such a symbol gets its end from the first line of the next table. -/
theorem fromOneTable_carried {a b : MapLine} {rest : List MapLine} {ret : Int} {sym : Symbol w}
    (ha : EndsWith name ks a)
    (hret : Returns name ret sym (search (IsLineOf name) none (ks ++ b :: rest))) :
    FromOneTable name ks (b :: rest) ret sym ↔ GivesRange w name (b :: rest) a b := by
  have hpending := search_eq_pending_iff.mpr ha
  rw [search_append hpending] at hret
  obtain ⟨rfl, haddr, hend⟩ := hret
  unfold FromOneTable GivesRange
  rw [followed_or_iff, pairIn_of_pending hpending, Option.none_or, haddr, hend]
  constructor
  · rintro ⟨hzero, hrange⟩
    obtain ⟨⟨a', b'⟩, hpair⟩ := Option.isSome_iff_exists.mp (hzero.mp rfl)
    obtain ⟨ha', hb'⟩ := hrange a' b' hpair
    exact ⟨a', b', hpair, ha'.symm, hb'.symm⟩
  · rintro ⟨a', b', hpair, ha', hb'⟩
    rw [hpair]
    refine ⟨⟨fun _ => rfl, fun _ => rfl⟩, fun a'' b'' h => ?_⟩
    cases h
    exact ⟨ha'.symm, hb'.symm⟩

/-- In all other cases the range comes from one table. -/
theorem fromOneTable_of_not_carried {ret : Int} {sym : Symbol w}
    (hnot : ∀ a, EndsWith name ks a → ms = [])
    (hret : Returns name ret sym (search (IsLineOf name) none (ks ++ ms))) :
    FromOneTable name ks ms ret sym := by
  cases houtcome : search (IsLineOf name) none ks with
  | pair a b =>
    rw [search_append_of_pair houtcome, ← houtcome] at hret
    have hpair : pairIn name ks = some (a, b) := search_eq_pair_iff.mp houtcome
    exact fromOneTable_of_search (by rw [hpair, Option.some_or]) hret
  | pending found =>
    have hnone := pairIn_of_pending houtcome
    rw [search_append houtcome] at hret
    cases found with
    | none => exact fromOneTable_of_search (by rw [hnone, Option.none_or]) hret
    | some a =>
      obtain rfl := hnot a (search_eq_pending_iff.mp houtcome)
      rw [search, ← houtcome] at hret
      exact fromOneTable_of_search (by rw [hnone, Option.none_or]; rfl) hret

/-- The range comes from one table unless the symbol is found in the last line of
`/proc/kallsyms` and `System.map` begins with some line. Then it is right only if
`System.map` happens to give the same addresses. -/
theorem range_from_one_table_iff (hname : IsSymbolName name)
    (hmem : ∀ a, host.kmalloc a = true)
    (hks : host.filpOpen kallsymsPath = .ok (image ks))
    (hms : host.filpOpen (systemMapPath ++ host.release.bytes) = .ok (image ms))
    (hfresh : sym.found = false) :
    (∃ ret sym', findSymbolAddress host sym name = some (ret, sym') ∧
        FromOneTable name ks ms ret sym') ↔
      ∀ a b rest, EndsWith name ks a → ms = b :: rest → GivesRange w name ms a b := by
  obtain ⟨ret, sym', hrun, hret⟩ := findSymbolAddress_image hname hmem hks hms hfresh
  have hanswer : (∃ ret sym', findSymbolAddress host sym name = some (ret, sym') ∧
      FromOneTable name ks ms ret sym') ↔ FromOneTable name ks ms ret sym' := by
    constructor
    · rintro ⟨ret', sym'', hrun', hright⟩
      cases hrun.symm.trans hrun'
      exact hright
    · intro hright
      exact ⟨ret, sym', hrun, hright⟩
  rw [hanswer]
  constructor
  · rintro hright a b rest ha rfl
    exact (fromOneTable_carried ha hret).mp hright
  · intro hrange
    cases ms with
    | nil => exact fromOneTable_of_not_carried (fun _ _ => rfl) hret
    | cons b rest =>
      by_cases hends : ∃ a, EndsWith name ks a
      · obtain ⟨a, ha⟩ := hends
        exact (fromOneTable_carried ha hret).mpr (hrange a b rest ha rfl)
      · exact fromOneTable_of_not_carried (fun a ha => absurd ⟨a, ha⟩ hends) hret

end

/-! ## Two tables -/

/-- `vfs_write`. -/
def vfsWriteName : CString := ⟨[118, 102, 115, 95, 119, 114, 105, 116, 101], by decide⟩

/-- `ffffffff811aa000 T vfs_write`. -/
def vfsWriteLine : MapLine where
  digits := [102, 102, 102, 102, 102, 102, 102, 102, 56, 49, 49, 97, 97, 48, 48, 48]
  digits_hex := by decide
  digits_le := by decide
  letter := 84
  letter_ne := by decide
  name := vfsWriteName
  newline_not_mem := by decide
  space_not_mem := by decide
  short := by decide

/-- `ffffffff81000000 T startup`. -/
def startupLine : MapLine where
  digits := [102, 102, 102, 102, 102, 102, 102, 102, 56, 49, 48, 48, 48, 48, 48, 48]
  digits_hex := by decide
  digits_le := by decide
  letter := 84
  letter_ne := by decide
  name := ⟨[115, 116, 97, 114, 116, 117, 112], by decide⟩
  newline_not_mem := by decide
  space_not_mem := by decide
  short := by decide

/-- `2.6.18`. -/
def release2618 : CString := ⟨[50, 46, 54, 46, 49, 56], by decide⟩

def twoTables (ks ms : List MapLine) : Host where
  filpOpen file :=
    if file = kallsymsPath then .ok (image ks)
    else if file = systemMapPath ++ release2618.bytes then .ok (image ms)
    else .error (-2)
  filpOpen_error file e h := by
    split at h
    · cases h
    · split at h
      · cases h
      · cases h
        decide
  kmalloc _ := true
  release := release2618

theorem isSymbolName_vfsWrite : IsSymbolName vfsWriteName := ⟨by decide, by decide, by decide⟩

theorem twoTables_systemMap (ks ms : List MapLine) :
    (twoTables ks ms).filpOpen (systemMapPath ++ (twoTables ks ms).release.bytes) =
      .ok (image ms) := by
  have hne : systemMapPath ++ release2618.bytes ≠ kallsymsPath := by decide
  simp only [twoTables, hne, if_false, if_true]

theorem range_from_one_table_iff_kallsyms : ∃ ret sym',
    findSymbolAddress (twoTables [vfsWriteLine, startupLine] [startupLine]) ({} : Symbol 64)
      vfsWriteName = some (ret, sym') ∧
    FromOneTable vfsWriteName [vfsWriteLine, startupLine] [startupLine] ret sym' := by
  refine (range_from_one_table_iff isSymbolName_vfsWrite (fun _ => rfl) rfl
    (twoTables_systemMap _ _) rfl).mpr fun a b rest ha _ => ?_
  cases search_eq_pending_iff.mpr ha

/-- The last symbol of `/proc/kallsyms` gets its end from the first line of
`System.map`, which does not have the symbol. -/
theorem range_from_two_tables : ¬ ∃ ret sym',
    findSymbolAddress (twoTables [vfsWriteLine] [startupLine]) ({} : Symbol 64)
      vfsWriteName = some (ret, sym') ∧
    FromOneTable vfsWriteName [vfsWriteLine] [startupLine] ret sym' := by
  rintro ⟨ret, sym', hrun, hright⟩
  obtain ⟨ret', sym'', hrun', hret⟩ := findSymbolAddress_image isSymbolName_vfsWrite
    (fun _ => rfl) rfl (twoTables_systemMap [vfsWriteLine] [startupLine])
    (rfl : ({} : Symbol 64).found = false)
  cases hrun.symm.trans hrun'
  have hends : EndsWith vfsWriteName [vfsWriteLine] vfsWriteLine :=
    ⟨[], rfl, rfl, List.forall_mem_nil _⟩
  obtain ⟨a, b, hpair, -⟩ := (fromOneTable_carried hends hret).mp hright
  cases hpair

end RtBackup.Symbols
