import RtBackup.Rb

/-!
# The configuration file (`LoadConfig`, `SaveConfig`)

`SaveConfig` overwrites `/etc/rtb.cnf` in place: a header without areas, the
sets, the items, and the header again, now with the offsets and sizes of both
areas. `LoadConfig` reads the header and then one record after the other.

Results:
1. `configRecords_saveConfig`: what a complete save writes is what a load reads,
   whatever the file held before.
2. `configRecords_saveConfigUpTo`: a save cut after its first write and before
   its last one leaves a file without records.
3. `loadConfig_eq`: when no allocation fails, a load inserts the records of the
   file in their order.
-/

namespace RtBackup

open ByteFile SearchTree

/-! ## Saving -/

/-- The variables of a loop of `SaveConfig`: `writeoffset`, the size field of
the area, and the writes made so far. -/
structure SaveArea where
  writeoffset : UInt32
  ulSize : UInt32
  writes : List Write

/-- One round of a loop of `SaveConfig`. -/
def SaveArea.write {α : Type} (c : Codec α) (s : SaveArea) (a : α) : SaveArea where
  writeoffset := s.writeoffset + UInt32.ofNat c.size
  ulSize := s.ulSize + UInt32.ofNat c.size
  writes := s.writes ++ [(s.writeoffset.toNat, c.enc a)]

/-- The records of a driver, in the order of its trees. -/
def Driver.setRecords (d : Driver) : List SetRecord := d.sets.map (·.toSetRecord)
def Driver.fileRecords (d : Driver) : List FileRecord := d.files.map (·.toFileRecord)

/-- The header before the areas are known. -/
def Driver.emptyHeader (d : Driver) : ConfigFileHeader where
  ulHeaderSize := 24
  ulOffsetSet := 0
  ulSizeSet := 0
  ulOffsetFiles := 0
  ulSizeFiles := 0
  ulLastShutdownStatus := d.dwLastNormalShutdown

/-- The loops over the sets and over the items. -/
def saveSets (d : Driver) : SaveArea :=
  d.setRecords.foldl (SaveArea.write setCodec) ⟨24, 0, [(0, headerCodec.enc d.emptyHeader)]⟩

def saveFiles (d : Driver) : SaveArea :=
  d.fileRecords.foldl (SaveArea.write fileCodec)
    ⟨(saveSets d).writeoffset, 0, (saveSets d).writes⟩

/-- The header after both loops. -/
def Driver.fullHeader (d : Driver) : ConfigFileHeader where
  ulHeaderSize := 24
  ulOffsetSet := 24
  ulSizeSet := (saveSets d).ulSize
  ulOffsetFiles := (saveSets d).writeoffset
  ulSizeFiles := (saveFiles d).ulSize
  ulLastShutdownStatus := d.dwLastNormalShutdown

/-- The calls of `file_write` that `SaveConfig` makes. -/
def saveWrites (d : Driver) : List Write :=
  (saveFiles d).writes ++ [(0, headerCodec.enc d.fullHeader)]

def saveConfig (d : Driver) : Driver :=
  { d with cnf := writeAll d.cnf (saveWrites d) }

/-- `SaveConfig` of which only the first `k` writes reach the file. -/
def saveConfigUpTo (k : Nat) (d : Driver) : Driver :=
  { d with cnf := writeAll d.cnf ((saveWrites d).take k) }

/-! ## Loading -/

/-- `file_read` of one record; `none` is a short read. -/
def readRecord {α : Type} (c : Codec α) (f : Bytes) (off : Nat) : Option α :=
  let bs := pread f off c.size
  if bs.length = c.size then some (c.dec bs) else none

/-- What the loop over the sets does with a record it read. -/
def loadSet (env : Env) (addr : Nat) (r : SetRecord) (d : Driver) : Driver :=
  let pmse : MonitorSetEntry := { toSetRecord := r, addr := addr }
  -- the answer of `ms_insert` is not looked at, `ulCounts` stays
  { d with monitorSet.rbTree := (msInsert env.rb d.monitorSet.rbTree pmse).1 }

/-- What the loop over the items does with a record it read. -/
def loadFile (env : Env) (addr : Nat) (r : FileRecord) (d : Driver) : Driver :=
  match msSearch d.monitorSet.rbTree r.guidSetId with
  | some pmse =>
    let pmfe : MonitorFileEntry := { toFileRecord := r, addr := addr, pSetEntry := some pmse.addr }
    { d with monitorFiles.rbTree := (miInsert env.rb d.monitorFiles.rbTree pmfe).1 }
  | none => d

/-- A loop of `LoadConfig` over an area of `n` records. The answer `false` is
the exit by `goto out`. -/
def loadArea {α : Type} (env : Env) (c : Codec α) (off : Nat)
    (process : Nat → α → Driver → Driver) : Nat → Nat → Driver → Driver × Bool
  | 0, _, d => (d, true)
  | n + 1, i, d =>
    match entryAlloc env d with
    | (d, none) => (d, false)
    | (d, some addr) =>
      match readRecord c d.cnf (off + i * c.size) with
      | none => (d, false)
      | some a => loadArea env c off process n (i + 1) (process addr a d)

def loadConfig (env : Env) (d : Driver) : Driver :=
  match readRecord headerCodec d.cnf 0 with
  | none => d
  | some cfh =>
    let d := { d with dwLastNormalShutdown := cfh.ulLastShutdownStatus }
    match loadArea env setCodec cfh.ulOffsetSet.toNat (loadSet env)
        (cfh.ulSizeSet.toNat / setCodec.size) 0 d with
    | (d, false) => d
    | (d, true) =>
      (loadArea env fileCodec cfh.ulOffsetFiles.toNat (loadFile env)
        (cfh.ulSizeFiles.toNat / fileCodec.size) 0 d).1

/-! ## The records of a file -/

/-- The records that a loop of `LoadConfig` reads, and whether it reads all. -/
def readArea {α : Type} (c : Codec α) (f : Bytes) (off : Nat) : Nat → Nat → List α × Bool
  | 0, _ => ([], true)
  | n + 1, i =>
    match readRecord c f (off + i * c.size) with
    | none => ([], false)
    | some a => (a :: (readArea c f off n (i + 1)).1, (readArea c f off n (i + 1)).2)

/-- The set and item records that `LoadConfig` reads from a file. -/
def configRecords (f : Bytes) : List SetRecord × List FileRecord :=
  match readRecord headerCodec f 0 with
  | none => ([], [])
  | some cfh =>
    match readArea setCodec f cfh.ulOffsetSet.toNat (cfh.ulSizeSet.toNat / setCodec.size) 0 with
    | (sets, false) => (sets, [])
    | (sets, true) =>
      (sets, (readArea fileCodec f cfh.ulOffsetFiles.toNat
        (cfh.ulSizeFiles.toNat / fileCodec.size) 0).1)

/-- With a header, the set records are those of the area that the header names. -/
theorem configRecords_sets {f : Bytes} {cfh : ConfigFileHeader}
    (h : readRecord headerCodec f 0 = some cfh) :
    (configRecords f).1 = (readArea setCodec f cfh.ulOffsetSet.toNat
      (cfh.ulSizeSet.toNat / setCodec.size) 0).1 := by
  unfold configRecords
  rw [h]
  simp only
  split <;> next heq => rw [heq]

/-- The shutdown status in a file, if the file has a header. -/
def configShutdownStatus (f : Bytes) : Option UInt32 :=
  (readRecord headerCodec f 0).map (·.ulLastShutdownStatus)

/-- Both areas lie below the 4 GiB that the offset fields can address. -/
def ConfigFits (d : Driver) : Prop :=
  24 + 312 * d.sets.length + 332 * d.files.length < 2 ^ 32

instance (d : Driver) : Decidable (ConfigFits d) := inferInstanceAs (Decidable (_ < _))

/-! ## The writes of a save -/

theorem toNat_add_ofNat {a : UInt32} {n : Nat} (h : a.toNat + n < 2 ^ 32) :
    (a + UInt32.ofNat n).toNat = a.toNat + n := by
  rw [UInt32.toNat_add, UInt32.toNat_ofNat']
  omega

/-- A loop of `SaveConfig` writes its records one behind the other. -/
theorem foldl_write {α : Type} (c : Codec α) (rs : List α) (s : SaveArea)
    (ho : s.writeoffset.toNat + c.size * rs.length < 2 ^ 32)
    (hz : s.ulSize.toNat + c.size * rs.length < 2 ^ 32) :
    (rs.foldl (SaveArea.write c) s).writeoffset.toNat = s.writeoffset.toNat + c.size * rs.length ∧
    (rs.foldl (SaveArea.write c) s).ulSize.toNat = s.ulSize.toNat + c.size * rs.length ∧
    (rs.foldl (SaveArea.write c) s).writes =
      s.writes ++ layout s.writeoffset.toNat (rs.map c.enc) := by
  induction rs generalizing s with
  | nil => simp [layout]
  | cons r rs ih =>
    have hmul : c.size * (r :: rs).length = c.size + c.size * rs.length := by
      rw [List.length_cons, Nat.mul_succ, Nat.add_comm]
    rw [hmul] at ho hz ⊢
    have hoff : (s.write c r).writeoffset.toNat = s.writeoffset.toNat + c.size :=
      toNat_add_ofNat (by omega)
    have hsize : (s.write c r).ulSize.toNat = s.ulSize.toNat + c.size :=
      toNat_add_ofNat (by omega)
    obtain ⟨h1, h2, h3⟩ := ih (s.write c r) (by omega) (by omega)
    refine ⟨?_, ?_, ?_⟩
    · rw [List.foldl_cons, h1, hoff, Nat.add_assoc]
    · rw [List.foldl_cons, h2, hsize, Nat.add_assoc]
    · rw [List.foldl_cons, h3, hoff, List.map_cons, layout, c.enc_length]
      simp [SaveArea.write]

/-- The blocks of both areas. -/
def Driver.blocks (d : Driver) : List Bytes :=
  d.setRecords.map setCodec.enc ++ d.fileRecords.map fileCodec.enc

theorem layout_append (off : Nat) (as bs : List Bytes) :
    layout off (as ++ bs) = layout off as ++ layout (off + as.flatten.length) bs := by
  induction as generalizing off with
  | nil => simp [layout]
  | cons a as ih => simp [layout, ih, Nat.add_assoc]

theorem flatten_enc_length {α : Type} (c : Codec α) (rs : List α) :
    (rs.map c.enc).flatten.length = c.size * rs.length := by
  induction rs with
  | nil => simp
  | cons r rs ih => simp [ih, Nat.mul_succ, Nat.add_comm]

@[simp] theorem setRecords_length (d : Driver) : d.setRecords.length = d.sets.length :=
  List.length_map _

@[simp] theorem fileRecords_length (d : Driver) : d.fileRecords.length = d.files.length :=
  List.length_map _

/-- The offsets and sizes of the final header, and the writes of both loops:
the empty header and the areas one behind the other. -/
theorem saveFiles_eq {d : Driver} (hfit : ConfigFits d) :
    d.fullHeader.ulSizeSet.toNat = 312 * d.sets.length ∧
    d.fullHeader.ulOffsetFiles.toNat = 24 + 312 * d.sets.length ∧
    d.fullHeader.ulSizeFiles.toNat = 332 * d.files.length ∧
    (saveFiles d).writes = (0, headerCodec.enc d.emptyHeader) :: layout 24 d.blocks := by
  unfold ConfigFits at hfit
  have h24 : (24 : UInt32).toNat = 24 := rfl
  have h0 : (0 : UInt32).toNat = 0 := rfl
  obtain ⟨hso, hss, hsw⟩ := foldl_write setCodec d.setRecords
    ⟨24, 0, [(0, headerCodec.enc d.emptyHeader)]⟩
    (by rw [setCodec_size, setRecords_length, h24]; omega)
    (by rw [setCodec_size, setRecords_length, h0]; omega)
  rw [← saveSets, setCodec_size, setRecords_length, h24] at hso
  rw [← saveSets, setCodec_size, setRecords_length, h0, Nat.zero_add] at hss
  rw [← saveSets, h24] at hsw
  obtain ⟨-, hfs, hfw⟩ := foldl_write fileCodec d.fileRecords
    ⟨(saveSets d).writeoffset, 0, (saveSets d).writes⟩
    (by rw [fileCodec_size, fileRecords_length, hso]; omega)
    (by rw [fileCodec_size, fileRecords_length, h0]; omega)
  rw [← saveFiles, fileCodec_size, fileRecords_length, h0, Nat.zero_add] at hfs
  refine ⟨hss, hso, hfs, ?_⟩
  rw [saveFiles, hfw, hsw, hso, Driver.blocks, layout_append, flatten_enc_length, setCodec_size,
    setRecords_length]
  simp

/-! ## Reading back -/

theorem readRecord_of_holds {α : Type} {c : Codec α} {f : Bytes} {off : Nat} {a : α}
    (h : Holds f off (c.enc a)) : readRecord c f off = some a := by
  have hread : pread f off c.size = c.enc a := by
    have := h.pread
    rwa [c.enc_length] at this
  rw [readRecord, hread, if_pos (c.enc_length a), c.dec_enc]

theorem readArea_of_holds {α : Type} {c : Codec α} {f : Bytes} {off : Nat} (rs : List α)
    (i : Nat) (h : Holds f (off + i * c.size) (rs.map c.enc).flatten) :
    readArea c f off rs.length i = (rs, true) := by
  induction rs generalizing i with
  | nil => rfl
  | cons r rs ih =>
    rw [List.map_cons, List.flatten_cons, Holds.append_iff, c.enc_length, Nat.add_assoc,
      ← Nat.succ_mul] at h
    rw [List.length_cons, readArea, readRecord_of_holds h.1]
    simp only [ih (i + 1) h.2]

theorem writeAll_append (f : Bytes) (ws vs : List Write) :
    writeAll f (ws ++ vs) = writeAll (writeAll f ws) vs :=
  List.foldl_append

/-- What a complete save leaves in the file. -/
theorem holds_saveConfig {d : Driver} (hfit : ConfigFits d) :
    Holds (saveConfig d).cnf 0 (headerCodec.enc d.fullHeader) ∧
    Holds (saveConfig d).cnf 24 (d.setRecords.map setCodec.enc).flatten ∧
    Holds (saveConfig d).cnf (24 + 312 * d.sets.length)
      (d.fileRecords.map fileCodec.enc).flatten := by
  obtain ⟨-, -, -, hw⟩ := saveFiles_eq hfit
  have hcnf : (saveConfig d).cnf =
      pwrite (writeAll (pwrite d.cnf 0 (headerCodec.enc d.emptyHeader)) (layout 24 d.blocks)) 0
        (headerCodec.enc d.fullHeader) := by
    rw [saveConfig, saveWrites, hw, writeAll_append]
    rfl
  -- the header is written over the first 24 bytes and leaves the areas alone
  have hblocks : Holds (saveConfig d).cnf 24 d.blocks.flatten := by
    rw [hcnf]
    refine (holds_writeAll_layout _ 24 d.blocks).pwrite_of_disjoint (.inr ?_)
    rw [headerCodec.enc_length, headerCodec_size]
  rw [Driver.blocks, List.flatten_append, Holds.append_iff, flatten_enc_length, setCodec_size,
    setRecords_length] at hblocks
  refine ⟨?_, hblocks.1, hblocks.2⟩
  rw [hcnf]
  exact holds_pwrite _ _ _

/-- A load reads what a complete save wrote. -/
theorem configRecords_saveConfig {d : Driver} (hfit : ConfigFits d) :
    configRecords (saveConfig d).cnf = (d.setRecords, d.fileRecords) := by
  obtain ⟨hss, hof, hsf, -⟩ := saveFiles_eq hfit
  obtain ⟨hh, hs, hf⟩ := holds_saveConfig hfit
  have hos : d.fullHeader.ulOffsetSet.toNat = 24 := rfl
  have hns : d.fullHeader.ulSizeSet.toNat / setCodec.size = d.setRecords.length := by
    rw [hss, setCodec_size, setRecords_length]
    omega
  have hnf : d.fullHeader.ulSizeFiles.toNat / fileCodec.size = d.fileRecords.length := by
    rw [hsf, fileCodec_size, fileRecords_length]
    omega
  rw [configRecords, readRecord_of_holds hh]
  simp only [hns, hnf, hos, hof]
  rw [readArea_of_holds d.setRecords 0 (by simpa using hs),
    readArea_of_holds d.fileRecords 0 (by simpa using hf)]

theorem configShutdownStatus_saveConfig {d : Driver} (hfit : ConfigFits d) :
    configShutdownStatus (saveConfig d).cnf = some d.dwLastNormalShutdown := by
  rw [configShutdownStatus, readRecord_of_holds (holds_saveConfig hfit).1]
  rfl

/-! ## Cut saves -/

theorem layout_take (off : Nat) (bs : List Bytes) (k : Nat) :
    (layout off bs).take k = layout off (bs.take k) := by
  induction bs generalizing off k with
  | nil => simp [layout]
  | cons b bs ih =>
    cases k with
    | zero => rfl
    | succ k => simp [layout, ih]

/-- A save that is cut between its first and its last write leaves a header
without areas. -/
theorem configRecords_saveConfigUpTo {d : Driver} (hfit : ConfigFits d) {k : Nat} (hk : 0 < k)
    (hlt : k < (saveWrites d).length) : configRecords (saveConfigUpTo k d).cnf = ([], []) := by
  obtain ⟨-, -, -, hw⟩ := saveFiles_eq hfit
  obtain ⟨j, rfl⟩ : ∃ j, k = j + 1 := ⟨k - 1, by omega⟩
  have hj : j ≤ (layout 24 d.blocks).length := by
    rw [saveWrites, hw] at hlt
    simp at hlt
    omega
  have hcnf : (saveConfigUpTo (j + 1) d).cnf =
      writeAll (pwrite d.cnf 0 (headerCodec.enc d.emptyHeader))
        (layout 24 (d.blocks.take j)) := by
    rw [saveConfigUpTo, saveWrites, hw, List.cons_append, List.take_succ_cons,
      List.take_append_of_le_length hj, layout_take]
    rfl
  have hh : Holds (saveConfigUpTo (j + 1) d).cnf 0 (headerCodec.enc d.emptyHeader) := by
    rw [hcnf]
    refine (holds_pwrite _ _ _).writeAll_of_before ?_ _
    rw [headerCodec.enc_length, headerCodec_size]
  rw [configRecords, readRecord_of_holds hh]
  simp [Driver.emptyHeader, readArea]

/-! ## Loading record by record -/

/-- Loading a list of records, each into an entry of its own. -/
def loadRecords {α : Type} (process : Nat → α → Driver → Driver) (d : Driver) (rs : List α) :
    Driver :=
  rs.foldl (fun d r => process d.nalloc r { d with nalloc := d.nalloc + 1 }) d

theorem loadSet_cnf (env : Env) (addr : Nat) (r : SetRecord) (d : Driver) :
    (loadSet env addr r d).cnf = d.cnf := rfl

theorem loadFile_cnf (env : Env) (addr : Nat) (r : FileRecord) (d : Driver) :
    (loadFile env addr r d).cnf = d.cnf := by
  unfold loadFile
  split <;> rfl

theorem loadRecords_cnf {α : Type} {process : Nat → α → Driver → Driver}
    (hcnf : ∀ addr a d, (process addr a d).cnf = d.cnf) (d : Driver) (rs : List α) :
    (loadRecords process d rs).cnf = d.cnf := by
  induction rs generalizing d with
  | nil => rfl
  | cons r rs ih => exact (ih _).trans (hcnf _ _ _)

/-- The driver after `n` allocations whose entries it did not keep. -/
def Driver.lose (d : Driver) (n : Nat) : Driver := { d with nalloc := d.nalloc + n }

/-- A loop of `LoadConfig` loads the records that it reads. The entry for a
short read is lost. -/
theorem loadArea_eq {α : Type} {env : Env} (halloc : ∀ n, env.allocOk n = true) (c : Codec α)
    (off : Nat) {process : Nat → α → Driver → Driver}
    (hcnf : ∀ addr a d, (process addr a d).cnf = d.cnf) (n i : Nat) {d : Driver} {f : Bytes}
    (hd : d.cnf = f) :
    loadArea env c off process n i d =
      ((loadRecords process d (readArea c f off n i).1).lose
          (if (readArea c f off n i).2 then 0 else 1),
        (readArea c f off n i).2) := by
  induction n generalizing i d with
  | zero => rfl
  | succ n ih =>
    have hstep : entryAlloc env d = ({ d with nalloc := d.nalloc + 1 }, some d.nalloc) := by
      rw [entryAlloc, if_pos (halloc _)]
    subst hd
    rw [loadArea, hstep, readArea]
    cases hr : readRecord c d.cnf (off + i * c.size) with
    | none =>
      simp only [hr]
      rfl
    | some a =>
      simp only [hr]
      exact ih (i + 1) (hcnf _ _ { d with nalloc := d.nalloc + 1 })

/-- When no allocation fails, a load inserts the records of the file. -/
theorem loadConfig_eq (env : Env) (halloc : ∀ n, env.allocOk n = true) (d : Driver) :
    ∃ status lost, loadConfig env d =
      (loadRecords (loadFile env)
        (loadRecords (loadSet env) { d with dwLastNormalShutdown := status }
          (configRecords d.cnf).1)
        (configRecords d.cnf).2).lose lost := by
  cases hr : readRecord headerCodec d.cnf 0 with
  | none => exact ⟨d.dwLastNormalShutdown, 0, by simp [loadConfig, configRecords, hr]; rfl⟩
  | some cfh =>
    have hsets := loadArea_eq halloc setCodec cfh.ulOffsetSet.toNat (loadSet_cnf env)
      (cfh.ulSizeSet.toNat / setCodec.size) 0 (f := d.cnf)
      (d := { d with dwLastNormalShutdown := cfh.ulLastShutdownStatus }) rfl
    have hfiles := loadArea_eq halloc fileCodec cfh.ulOffsetFiles.toNat (loadFile_cnf env)
      (cfh.ulSizeFiles.toNat / fileCodec.size) 0 (f := d.cnf)
      (d := loadRecords (loadSet env) { d with dwLastNormalShutdown := cfh.ulLastShutdownStatus }
        (readArea setCodec d.cnf cfh.ulOffsetSet.toNat
          (cfh.ulSizeSet.toNat / setCodec.size) 0).1)
      (loadRecords_cnf (loadSet_cnf env) _ _)
    refine ⟨cfh.ulLastShutdownStatus, ?_⟩
    cases hs : readArea setCodec d.cnf cfh.ulOffsetSet.toNat
        (cfh.ulSizeSet.toNat / setCodec.size) 0 with
    | mk sets all =>
      rw [hs] at hsets hfiles
      cases all with
      | false =>
        refine ⟨1, ?_⟩
        simp only [loadConfig, configRecords, hr, hs, hsets]
        rfl
      | true =>
        simp only [loadConfig, configRecords, hr, hs, hsets]
        exact ⟨_, congrArg Prod.fst hfiles⟩

end RtBackup
