import RtBackup.Lib.Blocks
import RtBackup.Netlink
import RtBackup.Restore

/-!
# The agent's side of the socket (`communicate.c`)

`SendConfig` edits the directory of the structure that it is given, copies the
structure behind a type into a notification and hands that to `netlink_send`, which
copies it behind a header. The memory of the structure is one block, of which the
structure is the first `ulSize` bytes.

The directory gets a separator where the byte at its length is none. That byte is
the terminator.

Results:
1. `sendConfig_message`: the directory in a message is what the structure has
   after the edit.
2. `send_again_iff`: messages carry the directory with one separator behind it if and
   only if there is one message, and the directory had none and was followed by
   zeros.
-/

namespace RtBackup

open ByteFile BoundedReads Blocks

/-! ## Structures (`comwrapper.h`) -/

def sizeofRealtimeBackupData : Nat := 548

namespace BackupData

def guidSetIdOffset : Nat := 4
def ulFilterItemCountsOffset : Nat := 20
def wszBakCacheDirOffset : Nat := 24

/-- The offset of `FilterItems[i]`. -/
def filterItemOffset (i : Nat) : Nat := 284 + 264 * i

def wszFilterNameOffset (i : Nat) : Nat := filterItemOffset i + 4

def ulSize (data : Bytes) : Nat := leVal (pread data 0 4)
def ulFilterItemCounts (data : Bytes) : Nat := leVal (pread data ulFilterItemCountsOffset 4)

/-- The structure has all its fields and lies in its block, and each item has a
name that ends in its field. -/
structure WellFormed (data : Bytes) : Prop where
  whole : sizeofRealtimeBackupData ≤ ulSize data
  inside : ulSize data ≤ data.length
  items : ∀ i < ulFilterItemCounts data, filterItemOffset (i + 1) ≤ ulSize data ∧
    (stringIn data (wszFilterNameOffset i) filereplMaxPath).isSome

end BackupData

/-- The offset of `AddOrDel.BackupData` in `FILEREPL_NOTIFICATION`. -/
def backupDataOffset : Nat := 8

/-! ## Integers -/

/-- The value of an `int`. -/
def toInt (n : Int) : Int := n.bmod (2 ^ 32)

/-- An `int` as a `size_t`. -/
def sizeT (n : Int) : Nat := (n % 2 ^ 64).toNat

/-! ## Sending -/

def netMem : Int := 3
def netSock : Int := 4

/-- `RTB_CMD`. -/
def rtbCmd : Nat := 1

def maxMsgLen : Nat := 1024 * 1024

def nlmsgSpace (len : Nat) : Nat := (sizeofNlmsghdr + len + 3) / 4 * 4

/-- What a call of `SendConfig` meets: whether the socket is there, what memory
`malloc` gives for the notification and holds, whether it gives any to
`netlink_send`, and what `sendmsg` returns. -/
structure SendCall where
  pSock : Bool
  malloc : Nat → Option (Nat → UInt8)
  mallocNlhdr : Bool
  sendmsg : Int

/-- `struct nlmsghdr`. `nlmsg_pid` is that of the module. -/
def nlmsghdr (nlmsgLen type : Nat) : Bytes :=
  leBytes 4 nlmsgLen ++ (leBytes 2 type ++ (leBytes 2 0 ++ (leBytes 4 0 ++ leBytes 4 rtbCmd)))

/-- The return value, and the message if it is sent. The copy into the buffer of
`NLMSG_SPACE(MAXMSGLEN)` zeros has to fit. -/
def netlinkSend (c : SendCall) (type : Nat) (sbuf : Bytes) (slen : Int) :
    Option (Int × Option Bytes) :=
  if ¬ c.mallocNlhdr then some (netMem, none)
  else if maxMsgLen < sizeT slen then none
  else do
    let copy ← load sbuf 0 (sizeT slen)
    let nlmsgLen := nlmsgSpace (sizeT slen)
    let message := nlmsghdr nlmsgLen type ++
      (copy ++ zeros (nlmsgLen - (sizeofNlmsghdr + copy.length)))
    pure (if c.sendmsg < 0 then (netSock, none) else (netOk, some message))

/-- What a call returns, leaves of the structure and sends. -/
structure Sent where
  ret : Int
  pBackupData : Option Bytes
  message : Option Bytes

/-- `if (dir[strlen(dir)] != '/') dir[strlen(dir)] = '/';`. -/
def appendSlash (data : Bytes) : Option Bytes := do
  let n ← strlen data BackupData.wszBakCacheDirOffset
  let last ← load data (BackupData.wszBakCacheDirOffset + n) 1
  if last ≠ [slash] then store data (BackupData.wszBakCacheDirOffset + n) [slash] else some data

/-- `printf` of the items, which reads each type and each name to its end. -/
def printItems (pFN : Bytes) : Nat → Nat → Option Unit
  | 0, _ => some ()
  | n + 1, i => do
    let _ ← load pFN (backupDataOffset + BackupData.filterItemOffset i) 4
    let _ ← strlen pFN (backupDataOffset + BackupData.wszFilterNameOffset i)
    printItems pFN n (i + 1)

/-- The structure is copied into the notification, and printed there. -/
def copyBackupData (pFN data : Bytes) : Option Bytes := do
  let size ← load data 0 4
  let copy ← load data 0 (leVal size)
  let pFN ← store pFN backupDataOffset copy
  let _ ← strlen pFN (backupDataOffset + BackupData.wszBakCacheDirOffset)
  let counts ← load pFN (backupDataOffset + BackupData.ulFilterItemCountsOffset) 4
  printItems pFN (leVal counts) 0
  pure pFN

/-- `ulFnSize`. -/
def fnSize : Option Bytes → Option Int
  | none => some sizeofFilereplNotification
  | some data => do
    let size ← load data 0 4
    pure (toInt (leVal size + sizeofFilereplNotification - sizeofRealtimeBackupData))

/-- Undefined where it accesses a byte that is not in the block of the structure or
of the notification. -/
def sendConfig (c : SendCall) (pBackupData : Option Bytes) (ulType : UInt32) : Option Sent :=
  if ¬ c.pSock then some ⟨-2, pBackupData, none⟩
  else do
    let ulFnSize ← fnSize pBackupData
    match c.malloc (sizeT ulFnSize) with
    | none => pure ⟨-3, pBackupData, none⟩
    | some fresh =>
      let pFN ← store ((List.range (sizeT ulFnSize)).map fresh) 0 (Codec.u32.enc ulType)
      match pBackupData with
      | none =>
        let (ret, message) ← netlinkSend c rtbCmd pFN ulFnSize
        pure ⟨ret, none, message⟩
      | some data =>
        let data ← appendSlash data
        let pFN ← copyBackupData pFN data
        let (ret, message) ← netlinkSend c rtbCmd pFN ulFnSize
        pure ⟨ret, some data, message⟩

/-- The bytes that a call asks `malloc` for. -/
def fnLen (data : Bytes) : Nat :=
  sizeT (toInt (BackupData.ulSize data + sizeofFilereplNotification - sizeofRealtimeBackupData))

/-- Every step of a call that asks for `n` bytes succeeds. -/
structure SendCall.Sends (c : SendCall) (n : Nat) : Prop where
  pSock : c.pSock = true
  malloc : c.malloc n ≠ none
  mallocNlhdr : c.mallocNlhdr = true
  sendmsg : 0 ≤ c.sendmsg

/-- The message is the header, the type and the structure. -/
structure Carries (message : Bytes) (ulType : UInt32) (data : Bytes) : Prop where
  length : message.length = nlmsgSpace (backupDataOffset + BackupData.ulSize data)
  header : message.take sizeofNlmsghdr = nlmsghdr message.length rtbCmd
  type : pread message sizeofNlmsghdr 4 = Codec.u32.enc ulType
  data : ∀ off n, off + n ≤ BackupData.ulSize data →
    pread message (sizeofNlmsghdr + (backupDataOffset + off)) n = pread data off n

/-- The messages of calls one after the other on one structure. -/
def sendConfigs : List (SendCall × UInt32) → Bytes → Option (List Bytes)
  | [], _ => some []
  | (c, ulType) :: calls, data => do
    let sent ← sendConfig c (some data) ulType
    let messages ← sendConfigs calls (sent.pBackupData.getD data)
    pure (sent.message.toList ++ messages)

/-! ## The steps of a call -/

section

variable {c : SendCall} {data data' pFN pFN' : Bytes} {ulType : UInt32} {sent : Sent} {m : Bytes}

/-- The edit puts a separator where the string has its end. -/
theorem appendSlash_eq {x s z : Bytes} (hx : x.length = BackupData.wszBakCacheDirOffset)
    (hs : 0 ∉ s) : appendSlash (x ++ (s ++ 0 :: z)) = some (x ++ (s ++ slash :: z)) := by
  have hxs : (x ++ s).length = BackupData.wszBakCacheDirOffset + s.length := by
    rw [List.length_append, hx]
  have hend : x ++ (s ++ 0 :: z) = (x ++ s) ++ ([0] ++ z) := (List.append_assoc _ _ _).symm
  have hlast : load ((x ++ s) ++ ([0] ++ z)) (BackupData.wszBakCacheDirOffset + s.length) 1 =
      some [0] := load_append hxs rfl
  have hstore : store ((x ++ s) ++ ([0] ++ z)) (BackupData.wszBakCacheDirOffset + s.length)
      [slash] = some ((x ++ s) ++ ([slash] ++ z)) := store_append hxs rfl
  have hne : ([0] : Bytes) ≠ [slash] := by decide
  rw [appendSlash, strlen_append hx hs, Option.bind_eq_bind, Option.bind_some, hend, hlast,
    Option.bind_eq_bind, Option.bind_some, if_pos hne, hstore, List.append_assoc]
  rfl

theorem appendSlash_eq_some (h : appendSlash data = some data') :
    ∃ x s z, data = x ++ (s ++ 0 :: z) ∧ x.length = BackupData.wszBakCacheDirOffset ∧ 0 ∉ s ∧
      data' = x ++ (s ++ slash :: z) := by
  cases hlen : strlen data BackupData.wszBakCacheDirOffset with
  | none => simp [appendSlash, hlen] at h
  | some n =>
    obtain ⟨x, s, z, rfl, hx, hs, -⟩ := strlen_eq_some hlen
    rw [appendSlash_eq hx hs] at h
    exact ⟨x, s, z, rfl, hx, hs, (Option.some.inj h).symm⟩

theorem copyBackupData_eq_some (h : copyBackupData pFN data = some pFN') :
    store pFN backupDataOffset (pread data 0 (BackupData.ulSize data)) = some pFN' ∧
      BackupData.ulSize data ≤ data.length := by
  simp only [copyBackupData, Option.bind_eq_bind, Option.bind_eq_some_iff] at h
  obtain ⟨size, hsize, copy, hcopy, pFN₁, hstore, -, -, -, -, -, -, hpFN⟩ := h
  obtain ⟨-, rfl⟩ := load_eq_some hsize
  obtain ⟨hle, rfl⟩ := load_eq_some hcopy
  obtain rfl := Option.some.inj hpFN
  exact ⟨hstore, by rwa [Nat.zero_add] at hle⟩

/-- The structure stands behind the type in the notification. -/
theorem pread_copied (h : store pFN backupDataOffset (pread data 0 (BackupData.ulSize data)) =
    some pFN') (hinside : BackupData.ulSize data ≤ data.length) {off n : Nat}
    (hn : off + n ≤ BackupData.ulSize data) :
    pread pFN' (backupDataOffset + off) n = pread data off n := by
  have hread : (pread data 0 (BackupData.ulSize data)).length = BackupData.ulSize data :=
    length_pread (by rwa [Nat.zero_add])
  rw [pread_store h (by rwa [hread]), pread_pread hn, Nat.zero_add]

theorem length_nlmsghdr (nlmsgLen type : Nat) :
    (nlmsghdr nlmsgLen type).length = sizeofNlmsghdr := by
  simp only [nlmsghdr, List.length_append, leBytes_length]
  rfl

/-- A message that is sent is the header and what it was made from. -/
theorem netlinkSend_eq_some {type : Nat} {sbuf : Bytes} {slen ret : Int}
    (h : netlinkSend c type sbuf slen = some (ret, some m)) :
    sizeT slen ≤ maxMsgLen ∧ sizeT slen ≤ sbuf.length ∧
      m = nlmsghdr (nlmsgSpace (sizeT slen)) type ++ (pread sbuf 0 (sizeT slen) ++
        zeros (nlmsgSpace (sizeT slen) - (sizeofNlmsghdr + sizeT slen))) := by
  unfold netlinkSend at h
  split at h
  · exact absurd (congrArg (·.map Prod.snd) h) nofun
  · split at h
    · exact absurd h nofun
    · next hlen =>
      simp only [Option.bind_eq_bind, Option.bind_eq_some_iff] at h
      obtain ⟨copy, hcopy, hout⟩ := h
      obtain ⟨hle, rfl⟩ := load_eq_some hcopy
      have hsent := congrArg Prod.snd (Option.some.inj hout)
      rw [length_pread hle] at hsent
      split at hsent
      · exact absurd hsent nofun
      · exact ⟨Nat.le_of_not_lt hlen, by omega, (Option.some.inj hsent).symm⟩

theorem netlinkSend_sent {type : Nat} {sbuf : Bytes} {slen : Int} {out : Int × Option Bytes}
    (hmalloc : c.mallocNlhdr = true) (hsendmsg : 0 ≤ c.sendmsg)
    (h : netlinkSend c type sbuf slen = some out) : ∃ message, out = (netOk, some message) := by
  unfold netlinkSend at h
  rw [if_neg (not_not.mpr hmalloc)] at h
  split at h
  · cases h
  · simp only [Option.bind_eq_bind, Option.bind_eq_some_iff, if_neg (Int.not_lt.mpr hsendmsg)] at h
    obtain ⟨copy, -, hout⟩ := h
    exact ⟨_, (Option.some.inj hout).symm⟩

/-- A message has the length that its header says. -/
theorem length_message (type : Nat) {sbuf : Bytes} {n : Nat} (h : sbuf.length = n) :
    (nlmsghdr (nlmsgSpace n) type ++
      (sbuf ++ zeros (nlmsgSpace n - (sizeofNlmsghdr + n)))).length = nlmsgSpace n := by
  have hge : sizeofNlmsghdr + n ≤ nlmsgSpace n := by
    rw [nlmsgSpace]
    omega
  rw [List.length_append, length_nlmsghdr, List.length_append, h, length_zeros, ← Nat.add_assoc, Nat.add_sub_cancel' hge]

theorem fnSize_eq_some {ulFnSize : Int} (h : fnSize (some data) = some ulFnSize) :
    sizeT ulFnSize = fnLen data := by
  simp only [fnSize, Option.bind_eq_bind, Option.bind_eq_some_iff] at h
  obtain ⟨size, hsize, hn⟩ := h
  obtain ⟨-, rfl⟩ := load_eq_some hsize
  exact congrArg sizeT (Option.some.inj hn).symm

theorem fnLen_eq (h : backupDataOffset + BackupData.ulSize data ≤ maxMsgLen) :
    fnLen data = backupDataOffset + BackupData.ulSize data := by
  have hmax : maxMsgLen = 1048576 := rfl
  have hoff : backupDataOffset = 8 := rfl
  have hsizes : (BackupData.ulSize data : Int) + sizeofFilereplNotification -
      sizeofRealtimeBackupData = (backupDataOffset + BackupData.ulSize data : Nat) := by
    have hn : (sizeofFilereplNotification : Int) = 556 := rfl
    have hd : (sizeofRealtimeBackupData : Int) = 548 := rfl
    omega
  rw [fnLen, hsizes, toInt, Int.bmod_eq_of_le (by omega) (by omega), sizeT,
    Int.emod_eq_of_lt (by omega) (by omega), Int.toNat_natCast]

theorem ulSize_append {x y y' : Bytes} (hx : x.length = BackupData.wszBakCacheDirOffset) :
    BackupData.ulSize (x ++ y) = BackupData.ulSize (x ++ y') := by
  have hle : 0 + 4 ≤ x.length := by
    rw [hx]
    decide
  rw [BackupData.ulSize, BackupData.ulSize, pread_append_left hle, pread_append_left hle]

theorem ulSize_appendSlash (h : appendSlash data = some data') :
    BackupData.ulSize data' = BackupData.ulSize data := by
  obtain ⟨x, s, z, rfl, hx, -, rfl⟩ := appendSlash_eq_some h
  exact ulSize_append hx

/-- What `netlink_send` sends of a notification with the structure in it. -/
theorem netlinkSend_carries (hc : c.Sends (fnLen data)) {slen : Int} {fresh : Nat → UInt8}
    (hslen : sizeT slen = fnLen data)
    (hpFN : store ((List.range (fnLen data)).map fresh) 0 (Codec.u32.enc ulType) = some pFN)
    (hsame : BackupData.ulSize data' = BackupData.ulSize data)
    (hcopy : copyBackupData pFN data' = some pFN') {out : Int × Option Bytes}
    (h : netlinkSend c rtbCmd pFN' slen = some out) :
    ∃ message, out = (netOk, some message) ∧ Carries message ulType data' ∧
      backupDataOffset + BackupData.ulSize data' ≤ maxMsgLen := by
  obtain ⟨hstore, hinside⟩ := copyBackupData_eq_some hcopy
  obtain ⟨message, rfl⟩ := netlinkSend_sent hc.mallocNlhdr hc.sendmsg h
  obtain ⟨hmax, -, rfl⟩ := netlinkSend_eq_some h
  have hlen : pFN.length = sizeT slen := by
    rw [length_store hpFN, List.length_map, List.length_range, hslen]
  have hlen' : pFN'.length = sizeT slen := (length_store hstore).trans hlen
  have hread : (pread data' 0 (BackupData.ulSize data')).length = BackupData.ulSize data' :=
    length_pread (by rwa [Nat.zero_add])
  have hfits := (store_eq_some hstore).1
  rw [hread, hlen] at hfits
  have hbound := Nat.le_trans hfits hmax
  have hn : sizeT slen = backupDataOffset + BackupData.ulSize data' := by
    rw [hslen, fnLen_eq (hsame ▸ hbound), hsame]
  have hall : pread pFN' 0 (sizeT slen) = pFN' := by
    rw [pread, List.drop_zero, List.take_of_length_le hlen'.le]
  rw [hall]
  have hspace := length_message rtbCmd hlen'
  refine ⟨_, rfl, ⟨hspace.trans (congrArg nlmsgSpace hn), ?_, ?_, fun off n hoff => ?_⟩, hbound⟩
  · rw [hspace, List.take_left' (length_nlmsghdr _ _)]
  · have hfour : 0 + 4 ≤ pFN'.length := by
      rw [hlen', hn]
      exact Nat.le_add_right_of_le (by decide)
    have htype : pread pFN (0 + 0) 4 = pread (Codec.u32.enc ulType) 0 4 :=
      pread_store hpFN (Codec.u32.enc_length ulType).ge
    rw [← Nat.add_zero sizeofNlmsghdr, pread_append_right (length_nlmsghdr _ _),
      pread_append_left hfour, pread_store_of_disjoint hstore (.inl (by decide)), htype, pread,
      List.drop_zero]
    exact List.take_of_length_le (Codec.u32.enc_length ulType).le
  · rw [pread_append_right (length_nlmsghdr _ _), pread_append_left (by omega),
      pread_copied hstore hinside hoff]

/-- A call whose steps succeed sends the edited structure. -/
theorem sendConfig_eq_some (hc : c.Sends (fnLen data))
    (h : sendConfig c (some data) ulType = some sent) :
    ∃ data' message, appendSlash data = some data' ∧ sent = ⟨netOk, some data', some message⟩ ∧
      Carries message ulType data' ∧
      backupDataOffset + BackupData.ulSize data' ≤ maxMsgLen := by
  simp only [sendConfig, hc.pSock, not_true, if_false, Option.bind_eq_bind,
    Option.bind_eq_some_iff] at h
  obtain ⟨ulFnSize, hsize, h⟩ := h
  have hslen := fnSize_eq_some hsize
  rw [hslen] at h
  cases hfresh : c.malloc (fnLen data) with
  | none => exact absurd hfresh hc.malloc
  | some fresh =>
    simp only [hfresh, Option.bind_eq_some_iff] at h
    obtain ⟨pFN, hpFN, data', hedit, pFN', hcopy, out, hsend, hout⟩ := h
    obtain ⟨message, rfl, hcarries, hbound⟩ := netlinkSend_carries hc hslen hpFN
      (ulSize_appendSlash hedit) hcopy hsend
    exact ⟨data', message, hedit, (Option.some.inj hout).symm, hcarries, hbound⟩

/-! ## Calls that are defined -/

theorem printItems_defined {n i : Nat}
    (h : ∀ k, i ≤ k → k < i + n →
      backupDataOffset + BackupData.filterItemOffset (k + 1) ≤ pFN.length ∧
      (stringIn pFN (backupDataOffset + BackupData.wszFilterNameOffset k) filereplMaxPath).isSome) :
    printItems pFN n i = some () := by
  induction n generalizing i with
  | zero => rfl
  | succ n ih =>
    obtain ⟨hlen, hname⟩ := h i (Nat.le_refl _) (by omega)
    obtain ⟨len, hstrlen⟩ := exists_strlen hname
    have hload : backupDataOffset + BackupData.filterItemOffset i + 4 ≤ pFN.length := by
      refine Nat.le_trans ?_ hlen
      rw [BackupData.filterItemOffset, BackupData.filterItemOffset]
      omega
    simp only [printItems, Option.bind_eq_bind, Option.bind_eq_some_iff]
    exact ⟨_, load_of_le hload, len, hstrlen, ih fun k hle hlt => h k (by omega) (by omega)⟩

theorem copyBackupData_defined (hwf : BackupData.WellFormed data)
    (hdir : (stringIn data BackupData.wszBakCacheDirOffset filereplMaxPath).isSome)
    (hlen : backupDataOffset + BackupData.ulSize data ≤ pFN.length) :
    ∃ pFN', copyBackupData pFN data = some pFN' := by
  have hwhole := hwf.whole
  have hinside := hwf.inside
  have hread : (pread data 0 (BackupData.ulSize data)).length = BackupData.ulSize data :=
    length_pread (by rwa [Nat.zero_add])
  obtain ⟨pFN', hstore⟩ := Option.isSome_iff_exists.mp
    (store_isSome_iff.mpr (hread.symm ▸ hlen :
      backupDataOffset + (pread data 0 (BackupData.ulSize data)).length ≤ pFN.length))
  have hstring : ∀ off size, off + size ≤ BackupData.ulSize data →
      stringIn pFN' (backupDataOffset + off) size = stringIn data off size := by
    intro off size hn
    rw [stringIn, stringIn, pread_copied hstore hinside hn]
  have hstring24 := hstring BackupData.wszBakCacheDirOffset filereplMaxPath
    (Nat.le_trans (by decide) hwhole)
  obtain ⟨n, hn⟩ := exists_strlen (hstring24 ▸ hdir)
  have hlen' : pFN'.length = pFN.length := length_store hstore
  have hfour : 0 + 4 ≤ data.length := Nat.le_trans (Nat.le_trans (by decide) hwhole) hinside
  have hcounts : backupDataOffset + BackupData.ulFilterItemCountsOffset + 4 ≤ pFN'.length := by
    rw [hlen', Nat.add_assoc]
    exact Nat.le_trans (Nat.add_le_add_left (Nat.le_trans (by decide) hwhole) _) hlen
  have hprint : printItems pFN' (BackupData.ulFilterItemCounts data) 0 = some () := by
    refine printItems_defined fun k _ hk => ?_
    obtain ⟨hitem, hname⟩ := hwf.items k (by omega)
    have hend : BackupData.wszFilterNameOffset k + filereplMaxPath =
        BackupData.filterItemOffset (k + 1) := by
      rw [BackupData.wszFilterNameOffset, BackupData.filterItemOffset, BackupData.filterItemOffset,
        filereplMaxPath]
      omega
    rw [hlen', hstring _ _ (hend ▸ hitem)]
    exact ⟨Nat.le_trans (Nat.add_le_add_left hitem _) hlen, hname⟩
  have hcount : leVal (pread pFN' (backupDataOffset + BackupData.ulFilterItemCountsOffset) 4) =
      BackupData.ulFilterItemCounts data :=
    congrArg leVal (pread_copied hstore hinside (Nat.le_trans (by decide) hwhole))
  refine ⟨pFN', ?_⟩
  simp only [copyBackupData, Option.bind_eq_bind, Option.bind_eq_some_iff]
  exact ⟨_, load_of_le hfour, _, load_of_le (by rwa [Nat.zero_add]), pFN', hstore, n, hn, _,
    load_of_le hcounts, (), hcount ▸ hprint, rfl⟩

theorem netlinkSend_defined (hc : c.mallocNlhdr = true) {type : Nat} {sbuf : Bytes} {slen : Int}
    (hmax : sizeT slen ≤ maxMsgLen) (hlen : sizeT slen ≤ sbuf.length) :
    ∃ out, netlinkSend c type sbuf slen = some out := by
  simp only [netlinkSend, Option.bind_eq_bind]
  rw [if_neg (not_not.mpr hc), if_neg (Nat.not_lt.mpr hmax), load_of_le (by rwa [Nat.zero_add]),
    Option.bind_some]
  exact ⟨_, rfl⟩

theorem sendConfig_defined (hc : c.Sends (fnLen data)) (ulType : UInt32)
    (hedit : appendSlash data = some data') (hwf : BackupData.WellFormed data')
    (hdir : (stringIn data' BackupData.wszBakCacheDirOffset filereplMaxPath).isSome)
    (hmax : backupDataOffset + BackupData.ulSize data' ≤ maxMsgLen) :
    ∃ sent, sendConfig c (some data) ulType = some sent := by
  have hsame := ulSize_appendSlash hedit
  have hn : fnLen data = backupDataOffset + BackupData.ulSize data' := by
    rw [fnLen_eq (hsame ▸ hmax), hsame]
  have hdata : 0 + 4 ≤ data.length := by
    obtain ⟨x, s, z, rfl, hx, -, -⟩ := appendSlash_eq_some hedit
    rw [List.length_append, hx]
    exact Nat.le_add_right_of_le (by decide)
  have hsize : fnSize (some data) = some (toInt (BackupData.ulSize data +
      sizeofFilereplNotification - sizeofRealtimeBackupData)) := by
    simp only [fnSize, load_of_le hdata]
    rfl
  obtain ⟨fresh, hfresh⟩ := Option.ne_none_iff_exists'.mp hc.malloc
  obtain ⟨pFN, hpFN⟩ := Option.isSome_iff_exists.mp (store_isSome_iff.mpr
    (show 0 + (Codec.u32.enc ulType).length ≤ ((List.range (fnLen data)).map fresh).length by
      rw [List.length_map, List.length_range, hn, Nat.zero_add]
      exact Nat.le_add_right_of_le (by rw [Codec.enc_length]; decide)))
  have hlen : pFN.length = fnLen data := by
    rw [length_store hpFN, List.length_map, List.length_range]
  obtain ⟨pFN', hcopy⟩ := copyBackupData_defined hwf hdir (hn ▸ hlen).ge
  have hlen' : pFN'.length = fnLen data := by
    rw [length_store (copyBackupData_eq_some hcopy).1, hlen]
  obtain ⟨out, hout⟩ := @netlinkSend_defined c hc.mallocNlhdr rtbCmd pFN' _
    (fnSize_eq_some hsize ▸ hn ▸ hmax) ((fnSize_eq_some hsize).trans hlen'.symm).le
  simp only [sendConfig, hc.pSock, not_true, if_false, Option.bind_eq_bind,
    Option.bind_eq_some_iff]
  refine ⟨⟨out.1, some data', out.2⟩, _, hsize, ?_⟩
  rw [fnSize_eq_some hsize]
  simp only [hfresh, Option.bind_eq_some_iff]
  exact ⟨pFN, hpFN, data', hedit, pFN', hcopy, out, hout, rfl⟩

end

/-! ## Sending again -/

/-- The directory with one separator behind it. -/
def withSlash (dir : Bytes) : Bytes :=
  if dir.getLast? = some slash then dir else dir ++ [slash]

/-- The directory that a message carries, if it ends in its field. -/
def messageDir (message : Bytes) : Option Bytes :=
  stringIn message (sizeofNlmsghdr + (backupDataOffset + BackupData.wszBakCacheDirOffset))
    filereplMaxPath

/-- Every call sends a message, and each carries the directory with a separator. -/
def SendsSame (calls : List (SendCall × UInt32)) (data dir : Bytes) : Prop :=
  ∃ messages, sendConfigs calls data = some messages ∧ messages.length = calls.length ∧
    ∀ message ∈ messages, messageDir message = some (withSlash dir)

section

variable {data data' dir message : Bytes} {ulType : UInt32}

theorem Carries.messageDir_eq (h : Carries message ulType data)
    (hwhole : sizeofRealtimeBackupData ≤ BackupData.ulSize data) :
    messageDir message = stringIn data BackupData.wszBakCacheDirOffset filereplMaxPath := by
  rw [messageDir, stringIn, stringIn, h.data _ _ (Nat.le_trans (by decide) hwhole)]

/-- The edit stays in the field of the directory. -/
theorem BackupData.WellFormed.edit (hwf : BackupData.WellFormed data) {x s z : Bytes}
    (hdata : data = x ++ (s ++ 0 :: z)) (hx : x.length = wszBakCacheDirOffset)
    (hlen : s.length < filereplMaxPath) : BackupData.WellFormed (x ++ (s ++ slash :: z)) := by
  have hxs : (x ++ s).length = wszBakCacheDirOffset + s.length := by
    rw [List.length_append, hx]
  have hstore : store data (wszBakCacheDirOffset + s.length) [slash] =
      some (x ++ (s ++ slash :: z)) := by
    rw [hdata, ← List.append_assoc, ← List.append_assoc]
    exact store_append (y := [0]) hxs rfl
  have hmax : filereplMaxPath = 260 := rfl
  have hoff : wszBakCacheDirOffset = 24 := rfl
  have hsize : ulSize (x ++ (s ++ slash :: z)) = ulSize data := by
    rw [hdata]
    exact ulSize_append hx
  have hcounts : ulFilterItemCounts (x ++ (s ++ slash :: z)) = ulFilterItemCounts data := by
    rw [ulFilterItemCounts, ulFilterItemCounts, pread_store_of_disjoint hstore (.inl ?_)]
    exact Nat.le_trans (by decide) (Nat.le_add_right _ _)
  refine ⟨hsize ▸ hwf.whole, ?_, fun i hi => ?_⟩
  · rw [hsize, length_store hstore]
    exact hwf.inside
  · obtain ⟨hitem, hname⟩ := hwf.items i (hcounts ▸ hi)
    refine ⟨hsize.symm ▸ hitem, ?_⟩
    rw [stringIn, pread_store_of_disjoint hstore (.inr ?_)]
    · exact hname
    · rw [List.length_singleton, wszFilterNameOffset, filterItemOffset]
      omega

theorem length_withSlash_le (dir : Bytes) : (withSlash dir).length ≤ dir.length + 1 := by
  unfold withSlash
  split
  · exact Nat.le_succ _
  · rw [List.length_append, List.length_singleton]

theorem ne_zero_of_append {s t : Bytes} (hs : 0 ∉ s) (ht : 0 ∉ t) : 0 ∉ s ++ t :=
  fun h => (List.mem_append.mp h).elim hs ht

/-- A message whose directory had a separator appended already. -/
theorem messageDir_ne_of_slash {x z s : Bytes} (hx : x.length = BackupData.wszBakCacheDirOffset)
    (hs : 0 ∉ s) (hlong : dir.length + 1 < s.length) (hlen : dir.length ≤ 258) :
    stringIn (x ++ (s ++ z)) BackupData.wszBakCacheDirOffset filereplMaxPath ≠
      some (withSlash dir) := by
  intro h
  have hle := length_le_of_stringIn h hx hs
  have hshort := length_withSlash_le dir
  have hmax : filereplMaxPath = 260 := rfl
  omega

/-- What a call is given when it follows another one: the string is longer. -/
theorem appendSlash_twice {x z : Bytes} (hx : x.length = BackupData.wszBakCacheDirOffset)
    (hdir : 0 ∉ dir) (h : appendSlash (x ++ (dir ++ slash :: z)) = some data') :
    ∃ x' s z', data' = x' ++ (s ++ z') ∧ x'.length = BackupData.wszBakCacheDirOffset ∧ 0 ∉ s ∧
      dir.length + 1 < s.length := by
  obtain ⟨x', s, z', hdata, hx', hs, rfl⟩ := appendSlash_eq_some h
  refine ⟨x', s ++ [slash], z', by rw [List.append_assoc]; rfl, hx',
    ne_zero_of_append hs (by decide), ?_⟩
  have hend : stringIn (x' ++ (s ++ 0 :: z')) BackupData.wszBakCacheDirOffset (s.length + 1) =
      some s := stringIn_eq_some_iff.mpr ⟨x', z', rfl, hx', hs, Nat.lt_succ_self _⟩
  rw [← hdata, List.append_cons] at hend
  have hle := length_le_of_stringIn hend hx (ne_zero_of_append hdir (by decide))
  rw [List.length_append, List.length_singleton] at hle ⊢
  omega

/-- The edited field holds the directory with one separator behind it if the directory
had none and the edit did not run into another string. -/
theorem stringIn_edited_iff {x z : Bytes} (hx : x.length = BackupData.wszBakCacheDirOffset)
    (hs : 0 ∉ dir) (hlen : dir.length ≤ 258) :
    stringIn (x ++ (dir ++ slash :: z)) BackupData.wszBakCacheDirOffset filereplMaxPath =
        some (withSlash dir) ↔
      dir.getLast? ≠ some slash ∧ z[0]? = some 0 := by
  have hmax : filereplMaxPath = 260 := rfl
  have hslash : 0 ∉ dir ++ [slash] := ne_zero_of_append hs (by decide)
  constructor
  · intro h
    refine ⟨fun hlast => ?_, ?_⟩
    · rw [withSlash, if_pos hlast, List.append_cons] at h
      have hle := length_le_of_stringIn h hx hslash
      rw [List.length_append, List.length_singleton] at hle
      omega
    · cases z with
      | nil =>
        -- the string has no end
        obtain ⟨x', z', hdata, hx', -, -⟩ := stringIn_eq_some_iff.mp h
        have htail := (List.append_inj hdata (hx.trans hx'.symm)).2
        exact absurd (htail ▸ zero_mem_append) hslash
      | cons b z =>
        by_contra hb
        have hz : dir ++ slash :: b :: z = (dir ++ [slash, b]) ++ z := by
          rw [List.append_assoc]
          rfl
        rw [hz] at h
        refine messageDir_ne_of_slash hx (ne_zero_of_append hs ?_) ?_ hlen h
        · simpa using ⟨by decide, fun h => hb (congrArg some h.symm)⟩
        · rw [List.length_append]
          exact Nat.lt_succ_self _
  · rintro ⟨hlast, hz⟩
    obtain ⟨z, rfl⟩ : ∃ z', z = 0 :: z' := by
      cases z with
      | nil => exact absurd hz nofun
      | cons b z => exact ⟨z, congrArg (· :: z) (Option.some.inj hz)⟩
    rw [withSlash, if_neg hlast, List.append_cons]
    refine stringIn_eq_some_iff.mpr ⟨x, z, rfl, hx, hslash, ?_⟩
    rw [List.length_append, List.length_singleton]
    omega

variable {c : SendCall} {rest : List (SendCall × UInt32)}

/-- The first message carries the edited structure, and the others are sent from it. -/
theorem SendsSame.head (h : SendsSame ((c, ulType) :: rest) data dir)
    (hc : c.Sends (fnLen data)) (hwhole : sizeofRealtimeBackupData ≤ BackupData.ulSize data) :
    ∃ data', appendSlash data = some data' ∧
      stringIn data' BackupData.wszBakCacheDirOffset filereplMaxPath = some (withSlash dir) ∧
      backupDataOffset + BackupData.ulSize data ≤ maxMsgLen ∧ SendsSame rest data' dir := by
  obtain ⟨messages, hrun, hlen, hall⟩ := h
  simp only [sendConfigs, Option.bind_eq_bind, Option.bind_eq_some_iff] at hrun
  obtain ⟨sent, hfirst, later, hlater, hmessages⟩ := hrun
  obtain rfl := Option.some.inj hmessages
  obtain ⟨data', message, hedit, rfl, hcarries, hbound⟩ := sendConfig_eq_some hc hfirst
  have hsame := ulSize_appendSlash hedit
  obtain ⟨hfield, hrest⟩ := List.forall_mem_cons.mp hall
  rw [hcarries.messageDir_eq (hsame ▸ hwhole)] at hfield
  exact ⟨data', hedit, hfield, hsame ▸ hbound, later, hlater, Nat.succ.inj hlen, hrest⟩

/-- Nothing is sent as before when a separator has been appended. -/
theorem not_sendsSame_edited {x z : Bytes} (hx : x.length = BackupData.wszBakCacheDirOffset)
    (hs : 0 ∉ dir) (hlen : dir.length ≤ 258)
    (hc : c.Sends (fnLen (x ++ (dir ++ slash :: z))))
    (hwhole : sizeofRealtimeBackupData ≤ BackupData.ulSize (x ++ (dir ++ slash :: z))) :
    ¬ SendsSame ((c, ulType) :: rest) (x ++ (dir ++ slash :: z)) dir := by
  intro h
  obtain ⟨data', hedit, hfield, -, -⟩ := h.head hc hwhole
  obtain ⟨x', s, z', rfl, hx', hs', hlong⟩ := appendSlash_twice hx hs hedit
  exact messageDir_ne_of_slash hx' hs' hlong hlen hfield

/-- Calls on one structure send its directory, with one separator behind it, every
time if and only if there is one call, the directory has no separator at its end,
the byte behind its terminator is 0, and the message fits the buffer. -/
theorem send_again_iff (hwf : BackupData.WellFormed data)
    (hdir : stringIn data BackupData.wszBakCacheDirOffset filereplMaxPath = some dir)
    (hlen : dir.length ≤ 258) (calls : List (SendCall × UInt32)) (hne : calls ≠ [])
    (hsends : ∀ call ∈ calls, call.1.Sends (fnLen data)) :
    SendsSame calls data dir ↔
      calls.length = 1 ∧ dir.getLast? ≠ some slash ∧
        data[BackupData.wszBakCacheDirOffset + dir.length + 1]? = some 0 ∧
        backupDataOffset + BackupData.ulSize data ≤ maxMsgLen := by
  obtain ⟨x, z, hdata, hx, hs, hfits⟩ := stringIn_eq_some_iff.mp hdir
  obtain ⟨⟨c, ulType⟩, rest, rfl⟩ := List.exists_cons_of_ne_nil hne
  obtain ⟨hc, hrest⟩ := List.forall_mem_cons.mp hsends
  have hedit : appendSlash data = some (x ++ (dir ++ slash :: z)) := by
    rw [hdata]
    exact appendSlash_eq hx hs
  have hwf' := hwf.edit hdata hx hfits
  have hsame := ulSize_appendSlash hedit
  have hbehind : data[BackupData.wszBakCacheDirOffset + dir.length + 1]? = z[0]? := by
    rw [hdata, Nat.add_assoc, ← hx, List.getElem?_append_right (Nat.le_add_right _ _),
      Nat.add_sub_cancel_left, List.getElem?_append_right (Nat.le_add_right _ _),
      Nat.add_sub_cancel_left]
    rfl
  rw [hbehind]
  constructor
  · intro h
    obtain ⟨data', hedit', hfield, hbound, hlater⟩ := h.head hc hwf.whole
    obtain rfl := Option.some.inj (hedit.symm.trans hedit')
    obtain ⟨hlast, hz⟩ := (stringIn_edited_iff hx hs hlen).mp hfield
    refine ⟨?_, hlast, hz, hbound⟩
    cases rest with
    | nil => rfl
    | cons call rest =>
      have hnext := hrest call List.mem_cons_self
      rw [fnLen, ← hsame, ← fnLen] at hnext
      exact absurd hlater (not_sendsSame_edited hx hs hlen hnext hwf'.whole)
  · rintro ⟨hone, hlast, hz, hbound⟩
    obtain rfl : rest = [] := List.eq_nil_of_length_eq_zero (Nat.succ.inj hone)
    have hfield := (stringIn_edited_iff hx hs hlen).mpr ⟨hlast, hz⟩
    rw [← hsame] at hbound
    obtain ⟨sent, hsent⟩ := sendConfig_defined hc ulType hedit hwf' (hfield ▸ rfl) hbound
    obtain ⟨data', message, hedit', rfl, hcarries, -⟩ := sendConfig_eq_some hc hsent
    obtain rfl := Option.some.inj (hedit.symm.trans hedit')
    refine ⟨[message], ?_, rfl, List.forall_mem_singleton.mpr ?_⟩
    · simp only [sendConfigs, hsent, Option.bind_eq_bind, Option.bind_some]
      rfl
    · rw [hcarries.messageDir_eq hwf'.whole, hfield]

end

/-! ## A structure of `main.c` -/

/-- A structure without items, with the directory `/test/task1`. -/
def task1 : Bytes :=
  leBytes 4 sizeofRealtimeBackupData ++ (leBytes 4 1 ++ (zeros 16 ++
    ([47, 116, 101, 115, 116, 47, 116, 97, 115, 107, 49] ++ zeros 513)))

theorem task1_wellFormed : BackupData.WellFormed task1 where
  whole := by decide +kernel
  inside := by decide +kernel
  items := by
    have hzero : BackupData.ulFilterItemCounts task1 = 0 := by decide +kernel
    rw [hzero]
    exact fun i hi => absurd hi (Nat.not_lt_zero i)

/-- A call to add a set whose steps all succeed, with zeros in new memory. -/
def addSetCall : SendCall × UInt32 where
  fst :=
    { pSock := true
      malloc := fun _ => some fun _ => 0
      mallocNlhdr := true
      sendmsg := 0 }
  snd := 0x4006

theorem addSetCall_sends (n : Nat) : addSetCall.1.Sends n :=
  ⟨rfl, Option.some_ne_none _, rfl, Int.le_refl _⟩

theorem send_again_iff_task1 :
    SendsSame [addSetCall] task1 [47, 116, 101, 115, 116, 47, 116, 97, 115, 107, 49] :=
  (send_again_iff task1_wellFormed (by decide +kernel) (by decide) [addSetCall]
    (List.cons_ne_nil _ _) (List.forall_mem_singleton.mpr (addSetCall_sends _))).mpr
    ⟨rfl, by decide, by decide +kernel, by decide +kernel⟩

/-- Of two messages the second has `/test/task1//`. -/
theorem second_message_has_two_slashes :
    ¬ SendsSame [addSetCall, addSetCall] task1
        [47, 116, 101, 115, 116, 47, 116, 97, 115, 107, 49] ∧
      ∃ messages, sendConfigs [addSetCall, addSetCall] task1 = some messages ∧
        messages.map messageDir =
          [some [47, 116, 101, 115, 116, 47, 116, 97, 115, 107, 49, 47],
            some [47, 116, 101, 115, 116, 47, 116, 97, 115, 107, 49, 47, 47]] := by
  have hmessages : (sendConfigs [addSetCall, addSetCall] task1).map (List.map messageDir) =
      some [some [47, 116, 101, 115, 116, 47, 116, 97, 115, 107, 49, 47],
        some [47, 116, 101, 115, 116, 47, 116, 97, 115, 107, 49, 47, 47]] := by
    decide +kernel
  obtain ⟨messages, hrun, hdirs⟩ := Option.map_eq_some_iff.mp hmessages
  refine ⟨?_, messages, hrun, hdirs⟩
  rintro ⟨messages', hrun', -, hall⟩
  obtain rfl := Option.some.inj (hrun.symm.trans hrun')
  have hsame : ∀ w ∈ messages.map messageDir, w = some (withSlash _) :=
    List.forall_mem_map.mpr hall
  rw [hdirs] at hsame
  exact absurd (hsame _ (List.mem_cons_of_mem _ List.mem_cons_self)) (by decide)

end RtBackup
