import RtBackup.Lib.BoundedReads
import RtBackup.Refusals

/-!
# Netlink messages (`rtbnetlink.c`)

How a packet becomes a command. Four quantities say how long the message is:
the length of the packet, `nlmsg_len` in its header, `ulFilterItemCounts`, and
the terminators of the strings. `netlink_recv_packet` checks `nlmsg_len` against
the packet, `process_netlink_cmd` checks it against the size of a notification
with one item and forgets that the header is part of it. The count and the
terminators are not checked.

The commands read the notification where it is, item by item, and act in
between. `rtbprintk` hands only its format on, so that the strings among its
arguments are not read.

Results:
1. `configAddMonitorSet_first`: an adding request reads on exactly as long as
   its items are accepted.
2. `processNetlinkCmd_eq`: a message that fits does what its notification does.
3. `netlink_reads_inside_iff`: which messages are read or refused as they should.
-/

namespace RtBackup

open ByteFile BoundedReads SearchTree Runs

/-! ## Packets -/

/-- `struct sk_buff`: the memory at `data`, of which the first `len` bytes are
the packet. -/
structure SkBuff where
  data : Memory
  len : Nat

/-- `sizeof(struct nlmsghdr)`, and the offset of `NLMSG_DATA`. -/
def sizeofNlmsghdr : Nat := 16

def sizeofFilereplNotification : Nat := 556

def rtbSet : Nat := 0
def rtbGet : Nat := 1

/-- `NET_PARAM` of `error_e`. -/
def netParam : Int := 2

namespace SkBuff

def nlmsgLen (skb : SkBuff) : Nat := leVal (skb.data.bytesAt 0 4)
def nlmsgType (skb : SkBuff) : Nat := leVal (skb.data.bytesAt 4 2)

/-- `NLMSG_DATA`. -/
def nlmsgData (skb : SkBuff) : Memory := fun offset => skb.data (sizeofNlmsghdr + offset)

/-- The bytes of the message that are payload. -/
def payload (skb : SkBuff) : Nat := skb.nlmsgLen - sizeofNlmsghdr

end SkBuff

/-- The cases of the `switch` in `process_netlink_cmd`. -/
inductive NotifyType
  | queryRunningStatus
  | addSet
  | addItem
  | delSet
  | delItem
  | delAll
  | queryLastShutdownStatus
  | resetLastShutdownStatus
  | other
  deriving DecidableEq

def notifyType (type : UInt32) : NotifyType :=
  if type = 0x4005 then .queryRunningStatus
  else if type = 0x4006 then .addSet
  else if type = 0x4007 then .addItem
  else if type = 0x4008 then .delSet
  else if type = 0x4009 then .delItem
  else if type = 0x400A then .delAll
  else if type = 0x400B then .queryLastShutdownStatus
  else if type = 0x400C then .resetLastShutdownStatus
  else .other

/-! ## A notification in memory -/

namespace Pfn

def guidSetIdOffset : Nat := 12
def ulFilterItemCountsOffset : Nat := 28
def wszBakCacheDirOffset : Nat := 32

/-- The offset of `FilterItems[ulI]`. -/
def filterItemOffset (ulI : Nat) : Nat := 292 + 264 * ulI

def wszFilterNameOffset (ulI : Nat) : Nat := filterItemOffset ulI + 4

/-- The loop of `ConfigAddMonitorSet` on the items from `ulI` on, of which `n`
are left. What a round does with its item is what the loop over a list with this
item alone does. -/
def addFilterItems (env : Env) (pfn : Memory) (guidSet : GUID) (pmse : Nat) :
    Nat → Nat → Int → Driver → Traced (Driver × Int × Bool)
  | 0, _, status, d => pure (d, status, true)
  | n + 1, ulI, status, d => do
    let wszFilterName ← Traced.readString pfn (wszFilterNameOffset ulI) filereplMaxPath
    let ulFileType ← Traced.readField pfn Codec.u32 (filterItemOffset ulI)
    match RtBackup.addFilterItems env guidSet pmse [⟨ulFileType, wszFilterName⟩] status d with
    | (d, status, false) => pure (d, status, false)
    | (d, status, true) => addFilterItems env pfn guidSet pmse n (ulI + 1) status d

/-- What `ConfigAddMonitorSet` does after its loop. -/
def afterLoop : Driver × Int × Bool → Driver × Int
  | (d, status, false) => (d, status)
  | (d, status, true) => (saveConfig d, status)

def configAddMonitorSet (env : Env) (pfn : Memory) (bDelExistSet : Bool) (d : Driver) :
    Traced (Driver × Int) := do
  let guidSetId ← Traced.readField pfn guidCodec guidSetIdOffset
  let wszBakCacheDir ← Traced.readString pfn wszBakCacheDirOffset filereplMaxPath
  let mse : SetRecord := ⟨guidSetId, wszBakCacheDir, 0, 0⟩
  let (d, status) := addMonitorSet env mse bDelExistSet d
  if status ≠ 0 ∧ ¬ (status = -2 ∧ bDelExistSet = false) then pure (d, status)
  else
    match msSearch d.monitorSet.rbTree guidSetId with
    | none => pure (d, -3)
    | some pmse => do
      let ulFilterItemCounts ← Traced.readField pfn Codec.u32 ulFilterItemCountsOffset
      let loop ← addFilterItems env pfn guidSetId pmse.addr ulFilterItemCounts.toNat 0 status d
      pure (afterLoop loop)

/-- The loop of `ConfigDelMonitorItem`; the GUID is copied and not used. -/
def delFilterItems (env : Env) (pfn : Memory) : Nat → Nat → Driver → Traced Driver
  | 0, _, d => pure d
  | n + 1, ulI, d => do
    let _ ← Traced.readField pfn guidCodec guidSetIdOffset
    let wszFilterName ← Traced.readString pfn (wszFilterNameOffset ulI) filereplMaxPath
    let ulFileType ← Traced.readField pfn Codec.u32 (filterItemOffset ulI)
    delFilterItems env pfn n (ulI + 1) (RtBackup.delFilterItems env [⟨ulFileType, wszFilterName⟩] d)

def configDelMonitorItem (env : Env) (pfn : Memory) (d : Driver) : Traced (Driver × Int) := do
  let ulFilterItemCounts ← Traced.readField pfn Codec.u32 ulFilterItemCountsOffset
  let d ← delFilterItems env pfn ulFilterItemCounts.toNat 0 d
  pure (saveConfig d, 0)

def configDelMonitorSet (env : Env) (pfn : Memory) (d : Driver) : Traced (Driver × Int) := do
  let guidSetId ← Traced.readField pfn guidCodec guidSetIdOffset
  pure (saveConfig (delMonitorSet env guidSetId d), 0)

/-- `process_netlink_cmd`; the commands that read no more of the message are
those on decoded notifications. -/
def processNetlinkCmd (env : Env) (pfn : Memory) (len : Nat) (d : Driver) :
    Traced (Driver × Int) :=
  if len < sizeofFilereplNotification then pure (d, netParam)
  else do
    let type ← Traced.readField pfn Codec.u32 0
    let _ ← Traced.readField pfn Codec.u32 4
    match notifyType type with
    | .addSet => configAddMonitorSet env pfn true d
    | .addItem => configAddMonitorSet env pfn false d
    | .delSet => configDelMonitorSet env pfn d
    | .delItem => configDelMonitorItem env pfn d
    | .delAll => pure (configDelAllMonitorSet d)
    | .queryRunningStatus => pure (d, netOk)
    | .queryLastShutdownStatus => pure ({ d with dwLastNormalShutdown := systemrunning }, netOk)
    | .resetLastShutdownStatus => pure ({ d with dwLastNormalShutdown := systemrunning }, netOk)
    | .other => pure (d, netOk)

end Pfn

/-- `process_hello_set` writes 13 bytes into the message and `netlink_to_user`
copies them out of it, if `alloc_skb` succeeds. -/
def processHelloSet (buf : Memory) (skbOk : Bool) (d : Driver) : Traced (Driver × Int) :=
  if skbOk then do
    let _ ← Traced.readField buf (Codec.pad 13) 0
    pure (d, netOk)
  else pure (d, netOk)

/-- The second component is what the called function returns. -/
def netlinkProcessPacket (env : Env) (skb : SkBuff) (skbOk : Bool) (d : Driver) :
    Traced (Driver × Option Int) :=
  if skb.nlmsgType = rtbGet then do
    let out ← Pfn.processNetlinkCmd env skb.nlmsgData skb.nlmsgLen d
    pure (out.1, some out.2)
  else if skb.nlmsgType = rtbSet then do
    let out ← processHelloSet skb.nlmsgData skbOk d
    pure (out.1, some out.2)
  else pure (d, none)

def netlinkRecvPacket (env : Env) (skb : SkBuff) (skbOk : Bool) (d : Driver) :
    Traced (Driver × Option Int) :=
  if sizeofNlmsghdr ≤ skb.len then
    if sizeofNlmsghdr ≤ skb.nlmsgLen ∧ skb.nlmsgLen ≤ skb.len then
      netlinkProcessPacket env skb skbOk d
    else pure (d, none)
  else pure (d, none)

/-- The value is neither the 0 of a command that was carried out nor `NET_OK`. -/
def Refused (ret : Int) : Prop := ret ≠ 0 ∧ ret ≠ netOk

theorem refused_of_neg {ret : Int} (h : ret < 0) : Refused ret :=
  ⟨h.ne, (h.trans (by decide : (0 : Int) < netOk)).ne⟩

/-! ## What a message says -/

namespace Pfn

def guidSetId (pfn : Memory) : GUID := guidCodec.dec (pfn.bytesAt guidSetIdOffset 16)

def ulFilterItemCounts (pfn : Memory) : Nat :=
  (Codec.u32.dec (pfn.bytesAt ulFilterItemCountsOffset 4)).toNat

/-- `FilterItems[ulI]`, also where there is none. -/
def filterItem (pfn : Memory) (ulI : Nat) : FilterItem where
  ulFileType := Codec.u32.dec (pfn.bytesAt (filterItemOffset ulI) 4)
  wszFilterName :=
    FieldString.ofField filereplMaxPath (pfn.bytesAt (wszFilterNameOffset ulI) filereplMaxPath)

def filterItems (pfn : Memory) (ulI n : Nat) : List FilterItem :=
  (List.range' ulI n).map (filterItem pfn)

/-- The request with the first `n` items. -/
def request (pfn : Memory) (n : Nat) : RealtimeBackupData where
  guidSetId := guidSetId pfn
  wszBakCacheDir :=
    FieldString.ofField filereplMaxPath (pfn.bytesAt wszBakCacheDirOffset filereplMaxPath)
  filterItems := filterItems pfn 0 n

/-- The cache directory ends in its field and in the payload. -/
def CacheDirFits (pfn : Memory) (payload : Nat) : Prop :=
  (Read.string wszBakCacheDirOffset filereplMaxPath).Inside pfn payload

/-- The type and the name of the item lie in the payload, the name ends in its
field. -/
def ItemFits (pfn : Memory) (payload ulI : Nat) : Prop :=
  (Read.string (wszFilterNameOffset ulI) filereplMaxPath).Inside pfn payload

instance (pfn : Memory) (payload : Nat) : Decidable (CacheDirFits pfn payload) :=
  inferInstanceAs (Decidable (Read.Inside _ _ _))

instance (pfn : Memory) (payload ulI : Nat) : Decidable (ItemFits pfn payload ulI) :=
  inferInstanceAs (Decidable (Read.Inside _ _ _))

end Pfn

/-! ## The loops -/

theorem addFilterItems_single (env : Env) (guid : GUID) (pmse : Nat) (item : FilterItem)
    (items : List FilterItem) (status : Int) (d : Driver) :
    addFilterItems env guid pmse (item :: items) status d =
      match addFilterItems env guid pmse [item] status d with
      | (d, status, false) => (d, status, false)
      | (d, status, true) => addFilterItems env guid pmse items status d := by
  simp only [addFilterItems]
  by_cases hk : item.known
  · simp only [if_pos hk]
    by_cases hstatus : (addMonitorItem env (requestedItem guid item) d).2 ≠ 0
    · simp only [if_pos hstatus]
    · simp only [if_neg hstatus]
  · simp only [if_neg hk]

namespace Pfn

variable {env : Env} {pfn : Memory} {payload : Nat} {d : Driver}

/-- A round on an item that fits: it ends the loop, or the loop goes on. -/
theorem addFilterItems_round (env : Env) {ulI : Nat} (h : ItemFits pfn payload ulI) (guid : GUID)
    (pmse n : Nat) (status : Int) (d : Driver) :
    let round := RtBackup.addFilterItems env guid pmse [filterItem pfn ulI] status d
    let loop := addFilterItems env pfn guid pmse (n + 1) ulI status d
    let next := addFilterItems env pfn guid pmse n (ulI + 1) round.2.1 round.1
    (round.2.2 = false → loop.Inside pfn payload ∧ loop.result = some round) ∧
      (round.2.2 = true →
        (loop.Inside pfn payload ↔ next.Inside pfn payload) ∧ loop.result = next.result) := by
  have htype : filterItemOffset ulI + Codec.u32.size ≤ payload := (Traced.stringAt_of_inside h).2.le
  intro round loop next
  let rest : Driver × Int × Bool → Traced (Driver × Int × Bool)
    | (d, status, false) => pure (d, status, false)
    | (d, status, true) => addFilterItems env pfn guid pmse n (ulI + 1) status d
  have hinside : loop.Inside pfn payload ↔ (rest round).Inside pfn payload :=
    (Traced.inside_readString_bind h _).trans (Traced.inside_readField_bind htype _)
  have hresult : loop.result = (rest round).result :=
    (Traced.result_readString_bind h _).trans (Traced.result_readField_bind _ _ _)
  rcases hround : round with ⟨d', status', goesOn⟩
  rw [hround] at hinside hresult
  cases goesOn with
  | false => exact ⟨fun _ => ⟨hinside.mpr (Traced.inside_pure _), hresult⟩, nofun⟩
  | true =>
    refine ⟨nofun, fun _ => ?_⟩
    simp only [next, hround]
    exact ⟨hinside, hresult⟩

/-- The rounds on the first `n` items, which all fit: they end the loop, or the
loop goes on behind them. -/
theorem addFilterItems_first (env : Env) {ulI n : Nat}
    (h : ∀ i, ulI ≤ i → i < ulI + n → ItemFits pfn payload i) (guid : GUID) (pmse m : Nat)
    (status : Int) (d : Driver) :
    let done := RtBackup.addFilterItems env guid pmse (filterItems pfn ulI n) status d
    let loop := addFilterItems env pfn guid pmse (n + m) ulI status d
    let next := addFilterItems env pfn guid pmse m (ulI + n) done.2.1 done.1
    (done.2.2 = false → loop.Inside pfn payload ∧ loop.result = some done) ∧
      (done.2.2 = true →
        (loop.Inside pfn payload ↔ next.Inside pfn payload) ∧ loop.result = next.result) := by
  induction n generalizing ulI status d with
  | zero =>
    rw [Nat.zero_add]
    exact ⟨nofun, fun _ => ⟨Iff.rfl, rfl⟩⟩
  | succ n ih =>
    have hround := addFilterItems_round env
      (h ulI (Nat.le_refl _) (Nat.lt_add_of_pos_right n.succ_pos)) guid pmse (n + m) status d
    have hrest : ∀ i, ulI + 1 ≤ i → i < ulI + 1 + n → ItemFits pfn payload i :=
      fun i hle hlt => h i (Nat.le_of_succ_le hle) (by omega)
    have hitems : filterItems pfn ulI (n + 1) =
        filterItem pfn ulI :: filterItems pfn (ulI + 1) n := rfl
    rw [hitems, addFilterItems_single, Nat.add_right_comm n 1 m, Nat.add_comm n 1, ← Nat.add_assoc]
    rcases hr : RtBackup.addFilterItems env guid pmse [filterItem pfn ulI] status d with
      ⟨d', status', goesOn⟩
    simp only [hr] at hround
    cases goesOn with
    | false => exact ⟨fun _ => hround.1 rfl, nofun⟩
    | true =>
      obtain ⟨hinside, hresult⟩ := hround.2 rfl
      have hnext := ih hrest status' d'
      exact ⟨fun hstop => ⟨hinside.mpr (hnext.1 hstop).1, hresult.trans (hnext.1 hstop).2⟩,
        fun hgo => ⟨hinside.trans (hnext.2 hgo).1, hresult.trans (hnext.2 hgo).2⟩⟩

/-! ## Adding -/

variable {bDelExistSet : Bool}

/-- What is left of a request when its set has been asked for. -/
def afterAddMonitorSet (env : Env) (pfn : Memory) (bDelExistSet : Bool) (d : Driver)
    (status : Int) : Traced (Driver × Int) :=
  if status ≠ 0 ∧ ¬ (status = -2 ∧ bDelExistSet = false) then pure (d, status)
  else
    match msSearch d.monitorSet.rbTree (guidSetId pfn) with
    | none => pure (d, -3)
    | some pmse => do
      let ulFilterItemCounts ← Traced.readField pfn Codec.u32 ulFilterItemCountsOffset
      let loop ← addFilterItems env pfn (guidSetId pfn) pmse.addr ulFilterItemCounts.toNat 0
        status d
      pure (afterLoop loop)

/-- The fields in front of the items are inside the message. -/
theorem configAddMonitorSet_fixed (hfixed : 292 ≤ payload) (hdir : CacheDirFits pfn payload)
    (n : Nat) :
    let rest := afterAddMonitorSet env pfn bDelExistSet
      (afterSet env (request pfn n) bDelExistSet d)
      (addMonitorSet env (request pfn n).requestedSet bDelExistSet d).2
    ((configAddMonitorSet env pfn bDelExistSet d).Inside pfn payload ↔ rest.Inside pfn payload) ∧
      (configAddMonitorSet env pfn bDelExistSet d).result = rest.result := by
  have hguid : guidSetIdOffset + guidCodec.size ≤ payload := Nat.le_trans (by decide) hfixed
  exact ⟨(Traced.inside_readField_bind hguid _).trans (Traced.inside_readString_bind hdir _),
    (Traced.result_readField_bind _ _ _).trans (Traced.result_readString_bind hdir _)⟩

/-- With an accepted set, the request is its loop. -/
theorem configAddMonitorSet_loop (hw : d.WF) (hfixed : 292 ≤ payload)
    (hdir : CacheDirFits pfn payload) (hset : SetAccepted env (guidSetId pfn) bDelExistSet d)
    (n : Nat) {pmse : MonitorSetEntry}
    (hpmse : msSearch (afterSet env (request pfn n) bDelExistSet d).monitorSet.rbTree
      (guidSetId pfn) = some pmse) :
    let loop := addFilterItems env pfn (guidSetId pfn) pmse.addr (ulFilterItemCounts pfn) 0
      (addMonitorSet env (request pfn n).requestedSet bDelExistSet d).2
      (afterSet env (request pfn n) bDelExistSet d)
    let request := configAddMonitorSet env pfn bDelExistSet d
    (request.Inside pfn payload ↔ loop.Inside pfn payload) ∧
      request.result = loop.result.map afterLoop := by
  have hcount : ulFilterItemCountsOffset + Codec.u32.size ≤ payload :=
    Nat.le_trans (by decide) hfixed
  have hgo := @setAccepted_goes_on env (request pfn n) bDelExistSet d hw hset
  obtain ⟨hinside, hresult⟩ :=
    @configAddMonitorSet_fixed env pfn payload d bDelExistSet hfixed hdir n
  rw [afterAddMonitorSet, if_neg hgo, hpmse] at hinside hresult
  refine ⟨hinside.trans ?_, hresult.trans ?_⟩
  · exact (Traced.inside_readField_bind hcount _).trans Traced.inside_bind_pure
  · exact (Traced.result_readField_bind _ _ _).trans (Traced.result_bind_pure _ _)

/-- A set that is refused ends the request before its items are read. -/
theorem configAddMonitorSet_no_set (hw : d.WF) (hfixed : 292 ≤ payload)
    (hdir : CacheDirFits pfn payload) (hset : ¬ SetAccepted env (guidSetId pfn) bDelExistSet d)
    (n : Nat) :
    (configAddMonitorSet env pfn bDelExistSet d).Inside pfn payload ∧
      (configAddMonitorSet env pfn bDelExistSet d).result =
        some (RtBackup.configAddMonitorSet env (request pfn n) bDelExistSet d) := by
  obtain ⟨status, hstatus, hno, hadd, hdecoded⟩ :=
    @RtBackup.configAddMonitorSet_no_set env (request pfn n) bDelExistSet d hw hset
  have hrest : afterAddMonitorSet env pfn bDelExistSet
      (afterSet env (request pfn n) bDelExistSet d)
      (addMonitorSet env (request pfn n).requestedSet bDelExistSet d).2 =
        pure (RtBackup.configAddMonitorSet env (request pfn n) bDelExistSet d) := by
    rw [hdecoded, afterSet, hadd]
    exact if_pos ⟨hstatus.ne, fun h => hno h.1⟩
  obtain ⟨hinside, hresult⟩ :=
    @configAddMonitorSet_fixed env pfn payload d bDelExistSet hfixed hdir n
  rw [hrest] at hinside hresult
  exact ⟨hinside.mpr (Traced.inside_pure _), hresult⟩

/-- What the message of an accepted set makes of its first `n` items, if they fit:
the loop ends there, or it goes on to the next one. -/
theorem configAddMonitorSet_first (hw : d.WF) (hfixed : 292 ≤ payload)
    (hdir : CacheDirFits pfn payload) (hset : SetAccepted env (guidSetId pfn) bDelExistSet d)
    {n : Nat} (hn : n ≤ ulFilterItemCounts pfn) (hitems : ∀ i < n, ItemFits pfn payload i)
    {pmse : MonitorSetEntry}
    (hpmse : msSearch (afterSet env (request pfn n) bDelExistSet d).monitorSet.rbTree
      (guidSetId pfn) = some pmse) :
    let done := RtBackup.addFilterItems env (guidSetId pfn) pmse.addr (filterItems pfn 0 n)
      (addMonitorSet env (request pfn n).requestedSet bDelExistSet d).2
      (afterSet env (request pfn n) bDelExistSet d)
    (done.2.2 = false ∨ n = ulFilterItemCounts pfn →
      (configAddMonitorSet env pfn bDelExistSet d).Inside pfn payload ∧
        (configAddMonitorSet env pfn bDelExistSet d).result =
          some (RtBackup.configAddMonitorSet env (request pfn n) bDelExistSet d)) ∧
      (done.2.2 = true → n < ulFilterItemCounts pfn →
        (configAddMonitorSet env pfn bDelExistSet d).Inside pfn payload →
          ItemFits pfn payload n) := by
  intro done
  obtain ⟨m, hm⟩ := Nat.exists_eq_add_of_le hn
  obtain ⟨hinside, hresult⟩ := configAddMonitorSet_loop hw hfixed hdir hset n hpmse
  have hfirst : ∀ i, 0 ≤ i → i < 0 + n → ItemFits pfn payload i :=
    fun i _ hi => hitems i (by rwa [Nat.zero_add] at hi)
  obtain ⟨hstop, hgo⟩ := addFilterItems_first env hfirst (guidSetId pfn) pmse.addr m
    (addMonitorSet env (request pfn n).requestedSet bDelExistSet d).2
    (afterSet env (request pfn n) bDelExistSet d)
  have hdecoded : RtBackup.configAddMonitorSet env (request pfn n) bDelExistSet d =
      afterLoop done :=
    RtBackup.configAddMonitorSet_loop hw hset hpmse
  rw [← hm] at hstop hgo
  have hstopped : done.2.2 = false →
      (configAddMonitorSet env pfn bDelExistSet d).Inside pfn payload ∧
        (configAddMonitorSet env pfn bDelExistSet d).result =
          some (RtBackup.configAddMonitorSet env (request pfn n) bDelExistSet d) := by
    intro hdone
    rw [hdecoded]
    exact ⟨hinside.mpr (hstop hdone).1, hresult.trans (congrArg (Option.map afterLoop)
      (hstop hdone).2)⟩
  refine ⟨?_, fun hdone hlt hin => ?_⟩
  · rintro (hdone | rfl)
    · exact hstopped hdone
    · cases hdone : done.2.2 with
      | false => exact hstopped hdone
      | true =>
        obtain rfl : m = 0 := by omega
        obtain ⟨hend, hlast⟩ := hgo hdone
        rw [hdecoded]
        refine ⟨hinside.mpr (hend.mpr (Traced.inside_pure _)), hresult.trans ?_⟩
        rw [hlast, addFilterItems, Traced.result_pure, Option.map_some, ← hdone]
  · obtain ⟨k, rfl⟩ : ∃ k, m = k + 1 := ⟨m - 1, by omega⟩
    have hnext := (hgo hdone).1.mp (hinside.mp hin)
    rw [Nat.zero_add, addFilterItems, Traced.inside_bind, Traced.inside_readString] at hnext
    exact hnext.1

/-- A message whose first `n` items fit and are all, or one of which is refused,
is what the request with these items is. -/
theorem configAddMonitorSet_eq (hw : d.WF) (hfixed : 292 ≤ payload)
    (hdir : CacheDirFits pfn payload) {n : Nat} (hn : n ≤ ulFilterItemCounts pfn)
    (hitems : ∀ i < n, ItemFits pfn payload i)
    (hend : n = ulFilterItemCounts pfn ∨ ¬ (SetAccepted env (guidSetId pfn) bDelExistSet d ∧
      ItemsAccepted env (request pfn n) bDelExistSet d)) :
    (configAddMonitorSet env pfn bDelExistSet d).Inside pfn payload ∧
      (configAddMonitorSet env pfn bDelExistSet d).result =
        some (RtBackup.configAddMonitorSet env (request pfn n) bDelExistSet d) := by
  by_cases hset : SetAccepted env (guidSetId pfn) bDelExistSet d
  · obtain ⟨pmse, hpmse, -⟩ := @afterSet_entry env (request pfn n) bDelExistSet d hw hset
    refine (configAddMonitorSet_first hw hfixed hdir hset hn hitems hpmse).1 ?_
    rcases hend with hall | hrefused
    · exact .inr hall
    · have hstop : ¬ Along (itemStep env (guidSetId pfn) pmse.addr) (ItemAccepted env)
          (afterSet env (request pfn n) bDelExistSet d) (filterItems pfn 0 n) :=
        fun h => hrefused ⟨hset, (itemsAccepted_iff hpmse).mpr h⟩
      obtain ⟨done, item, rest, -, -, -, k, status, -, -, heq⟩ :=
        addFilterItems_of_refused env (guidSetId pfn) pmse.addr
          (addMonitorSet env (request pfn n).requestedSet bDelExistSet d).2 hstop
      rw [heq]
      exact .inl rfl
  · exact configAddMonitorSet_no_set hw hfixed hdir hset n

/-- Once the first `n` items are accepted, the next one is read. -/
theorem configAddMonitorSet_reads_on (hw : d.WF) (hfixed : 292 ≤ payload)
    (hdir : CacheDirFits pfn payload) {n : Nat} (hn : n < ulFilterItemCounts pfn)
    (hitems : ∀ i < n, ItemFits pfn payload i)
    (hset : SetAccepted env (guidSetId pfn) bDelExistSet d)
    (haccepted : ItemsAccepted env (request pfn n) bDelExistSet d)
    (hin : (configAddMonitorSet env pfn bDelExistSet d).Inside pfn payload) :
    ItemFits pfn payload n := by
  obtain ⟨pmse, hpmse, -⟩ := @afterSet_entry env (request pfn n) bDelExistSet d hw hset
  refine (configAddMonitorSet_first hw hfixed hdir hset hn.le hitems hpmse).2 ?_ hn hin
  have hgo := addFilterItems_of_accepted env (guidSetId pfn) pmse.addr
    (addMonitorSet env (request pfn n).requestedSet bDelExistSet d).2
    ((itemsAccepted_iff hpmse).mp haccepted)
  exact congrArg (·.2.2) hgo

/-- Cache directory and items of an adding request fit. -/
def AddFits (pfn : Memory) (payload : Nat) : Prop :=
  CacheDirFits pfn payload ∧ ∀ i < ulFilterItemCounts pfn, ItemFits pfn payload i

/-- The request is refused, with nothing changed, by its set or by one of some
first items that all fit. -/
def RefusedInTime (env : Env) (pfn : Memory) (payload : Nat) (bDelExistSet : Bool) (d : Driver) :
    Prop :=
  CacheDirFits pfn payload ∧ ∃ n ≤ ulFilterItemCounts pfn,
    (∀ i < n, ItemFits pfn payload i) ∧ RefusedUnchanged env (request pfn n) bDelExistSet d

theorem configAddMonitorSet_inside_iff (hw : d.WF) (hfixed : 292 ≤ payload) :
    ((configAddMonitorSet env pfn bDelExistSet d).Inside pfn payload ∧
      (¬ AddFits pfn payload → ∃ k ret, Refused ret ∧
        (configAddMonitorSet env pfn bDelExistSet d).result =
          some ({ d with nalloc := k }, ret))) ↔
      AddFits pfn payload ∨ RefusedInTime env pfn payload bDelExistSet d := by
  constructor
  · rintro ⟨hin, hunfit⟩
    have hguid : guidSetIdOffset + guidCodec.size ≤ payload := Nat.le_trans (by decide) hfixed
    have hdir : CacheDirFits pfn payload := by
      have hreads := (Traced.inside_readField_bind hguid _).mp hin
      exact (Traced.inside_readString _ _).mp (Traced.inside_bind.mp hreads).1
    by_cases hall : ∀ i < ulFilterItemCounts pfn, ItemFits pfn payload i
    · exact .inl ⟨hdir, hall⟩
    · obtain ⟨k, ret, -, hresult⟩ := hunfit fun h => hall h.2
      have hbad : ∃ i, i < ulFilterItemCounts pfn ∧ ¬ ItemFits pfn payload i := by
        simpa only [not_forall, exists_prop] using hall
      -- the first item that does not fit is not read, so an item before it is refused
      obtain ⟨hn, hno⟩ := Nat.find_spec hbad
      have hitems : ∀ i < Nat.find hbad, ItemFits pfn payload i := fun i hi =>
        Decidable.byContradiction fun h => Nat.find_min hbad hi ⟨hi.trans hn, h⟩
      have hrefused : ¬ (SetAccepted env (guidSetId pfn) bDelExistSet d ∧
          ItemsAccepted env (request pfn (Nat.find hbad)) bDelExistSet d) :=
        fun h => hno (configAddMonitorSet_reads_on hw hfixed hdir hn hitems h.1 h.2 hin)
      have hlen : (request pfn (Nat.find hbad)).filterItems.length < 2 ^ 32 := by
        rw [request, filterItems, List.length_map, List.length_range']
        exact hn.trans (UInt32.toNat_lt _)
      have heq := Option.some.inj ((configAddMonitorSet_eq hw hfixed hdir hn.le hitems
        (.inr hrefused)).2.symm.trans hresult)
      refine .inr ⟨hdir, _, hn.le, hitems, refusedUnchanged_of_unchanged hw hlen hrefused ?_⟩
      rw [heq]
      exact ⟨rfl, rfl⟩
  · rintro (⟨hdir, hall⟩ | ⟨hdir, n, hn, hitems, hrefused⟩)
    · exact ⟨(configAddMonitorSet_eq hw hfixed hdir (Nat.le_refl _) hall (.inl rfl)).1,
        fun h => absurd ⟨hdir, hall⟩ h⟩
    · obtain ⟨hin, hresult⟩ :=
        configAddMonitorSet_eq hw hfixed hdir hn hitems (.inr (hrefused.not_accepted hw))
      obtain ⟨k, status, hstatus, heq⟩ := hrefused.answer hw
      exact ⟨hin, fun _ =>
        ⟨k, status, refused_of_neg hstatus, hresult.trans (congrArg some heq)⟩⟩

/-! ## Deleting -/

theorem delFilterItems_inside_iff (hfixed : 292 ≤ payload) (n ulI : Nat) :
    (delFilterItems env pfn n ulI d).Inside pfn payload ↔
      ∀ i, ulI ≤ i → i < ulI + n → ItemFits pfn payload i := by
  have hguid : guidSetIdOffset + guidCodec.size ≤ payload := Nat.le_trans (by decide) hfixed
  induction n generalizing ulI d with
  | zero => exact iff_of_true (Traced.inside_pure _) fun i hle hlt => absurd hlt (by omega)
  | succ n ih =>
    rw [delFilterItems, Traced.inside_readField_bind hguid]
    by_cases hfit : ItemFits pfn payload ulI
    · have htype : filterItemOffset ulI + Codec.u32.size ≤ payload :=
        (Traced.stringAt_of_inside hfit).2.le
      rw [Traced.inside_readString_bind hfit, Traced.inside_readField_bind htype]
      refine (ih _).trans ?_
      constructor
      · intro hrest i hle hlt
        rcases Nat.eq_or_lt_of_le hle with rfl | hgt
        · exact hfit
        · exact hrest i hgt (by omega)
      · exact fun hall i hle hlt => hall i (by omega) (by omega)
    · rw [Traced.inside_bind, Traced.inside_readString]
      exact iff_of_false (fun h => hfit h.1) fun h => hfit (h ulI (Nat.le_refl _) (by omega))

theorem delFilterItems_single (env : Env) (item : FilterItem) (items : List FilterItem)
    (d : Driver) :
    RtBackup.delFilterItems env (item :: items) d =
      RtBackup.delFilterItems env items (RtBackup.delFilterItems env [item] d) := by
  simp only [RtBackup.delFilterItems]
  split <;> rfl

theorem delFilterItems_eq {n ulI : Nat}
    (h : ∀ i, ulI ≤ i → i < ulI + n → ItemFits pfn payload i) :
    (delFilterItems env pfn n ulI d).result =
      some (RtBackup.delFilterItems env (filterItems pfn ulI n) d) := by
  induction n generalizing ulI d with
  | zero => rfl
  | succ n ih =>
    have hfit : ItemFits pfn payload ulI := h ulI (Nat.le_refl _) (by omega)
    have hitems : filterItems pfn ulI (n + 1) =
        filterItem pfn ulI :: filterItems pfn (ulI + 1) n := rfl
    rw [hitems, delFilterItems_single, delFilterItems, Traced.result_readField_bind,
      Traced.result_readString_bind hfit, Traced.result_readField_bind]
    exact ih fun i hle hlt => h i (by omega) (by omega)

theorem configDelMonitorItem_inside_iff (hfixed : 292 ≤ payload) :
    (configDelMonitorItem env pfn d).Inside pfn payload ↔
      ∀ i < ulFilterItemCounts pfn, ItemFits pfn payload i := by
  have hcount : ulFilterItemCountsOffset + Codec.u32.size ≤ payload :=
    Nat.le_trans (by decide) hfixed
  rw [configDelMonitorItem, Traced.inside_readField_bind hcount, Traced.inside_bind_pure,
    delFilterItems_inside_iff hfixed]
  exact ⟨fun h i hi => h i i.zero_le (by rwa [Nat.zero_add]),
    fun h i _ hi => h i (by rwa [Nat.zero_add] at hi)⟩

/-! ## Messages -/

/-- `pfn->Type`. -/
def type (pfn : Memory) : NotifyType := notifyType (Codec.u32.dec (pfn.bytesAt 0 Codec.u32.size))

/-- What the command of the message reads lies in the payload, and its strings
end in their fields. -/
def Fits (pfn : Memory) (payload : Nat) : Prop :=
  292 ≤ payload ∧
  match type pfn with
  | .addSet | .addItem => AddFits pfn payload
  | .delItem => ∀ i < ulFilterItemCounts pfn, ItemFits pfn payload i
  | _ => True

/-- An adding request that is refused, with nothing changed, before it is read
where it does not fit. -/
def AddRefused (env : Env) (pfn : Memory) (payload : Nat) (d : Driver) : Prop :=
  match type pfn with
  | .addSet => RefusedInTime env pfn payload true d
  | .addItem => RefusedInTime env pfn payload false d
  | _ => False

/-- The message is read inside its payload, and refused if it does not fit. -/
def ReadOrRefused (pfn : Memory) (payload : Nat) (d : Driver) (fits : Prop)
    (handled : Traced (Driver × Int)) : Prop :=
  handled.Inside pfn payload ∧
    (¬ fits → ∃ k ret, Refused ret ∧ handled.result = some ({ d with nalloc := k }, ret))

theorem processNetlinkCmd_inside_iff (hw : d.WF) {len : Nat}
    (hlen : ¬ len < sizeofFilereplNotification) (hfixed : 292 ≤ payload) :
    ReadOrRefused pfn payload d (Fits pfn payload) (processNetlinkCmd env pfn len d) ↔
      Fits pfn payload ∨ AddRefused env pfn payload d := by
  have htypeField : 0 + Codec.u32.size ≤ payload := Nat.le_trans (by decide) hfixed
  have hrunning : 4 + Codec.u32.size ≤ payload := Nat.le_trans (by decide) hfixed
  have hguid : guidSetIdOffset + guidCodec.size ≤ payload := Nat.le_trans (by decide) hfixed
  unfold ReadOrRefused processNetlinkCmd Fits AddRefused
  rw [if_neg hlen, Traced.inside_readField_bind htypeField, Traced.inside_readField_bind hrunning,
    Traced.result_readField_bind, Traced.result_readField_bind, and_iff_right hfixed]
  have htype : notifyType (Codec.u32.dec (pfn.bytesAt 0 Codec.u32.size)) = type pfn := rfl
  rw [htype]
  cases type pfn with
  | addSet => exact configAddMonitorSet_inside_iff hw hfixed
  | addItem => exact configAddMonitorSet_inside_iff hw hfixed
  | delItem =>
    refine (and_congr_left' (configDelMonitorItem_inside_iff hfixed)).trans ?_
    rw [or_false]
    exact and_iff_left_of_imp fun hall hno => absurd hall hno
  | delSet =>
    have hinside : (configDelMonitorSet env pfn d).Inside pfn payload :=
      (Traced.inside_readField_bind hguid _).mpr (Traced.inside_pure _)
    exact iff_of_true ⟨hinside, fun h => absurd trivial h⟩ (.inl trivial)
  | delAll | queryRunningStatus | queryLastShutdownStatus | resetLastShutdownStatus | other =>
    exact iff_of_true ⟨Traced.inside_pure _, fun h => absurd trivial h⟩ (.inl trivial)

/-- The notification that the message is. -/
def notification (pfn : Memory) : Notification :=
  match type pfn with
  | .addSet => .addSet (request pfn (ulFilterItemCounts pfn))
  | .addItem => .addItem (request pfn (ulFilterItemCounts pfn))
  | .delSet => .delSet (request pfn (ulFilterItemCounts pfn))
  | .delItem => .delItem (request pfn (ulFilterItemCounts pfn))
  | .delAll => .delAll
  | .queryRunningStatus => .queryRunningStatus
  | .queryLastShutdownStatus => .queryLastShutdownStatus
  | .resetLastShutdownStatus => .resetLastShutdownStatus
  | .other => .other

/-- A message that fits does what its notification does. -/
theorem processNetlinkCmd_eq (hw : d.WF) {len : Nat}
    (hlen : ¬ len < sizeofFilereplNotification) (hfits : Fits pfn payload) :
    (processNetlinkCmd env pfn len d).result =
      some ((RtBackup.processNetlinkCmd env d (notification pfn)).1,
        (RtBackup.processNetlinkCmd env d (notification pfn)).2.1) := by
  obtain ⟨hfixed, hfits⟩ := hfits
  unfold processNetlinkCmd notification
  rw [if_neg hlen, Traced.result_readField_bind, Traced.result_readField_bind]
  have htype : notifyType (Codec.u32.dec (pfn.bytesAt 0 Codec.u32.size)) = type pfn := rfl
  rw [htype]
  cases h : type pfn with
  | addSet =>
    rw [h] at hfits
    exact (configAddMonitorSet_eq hw hfixed hfits.1 (Nat.le_refl _) hfits.2 (.inl rfl)).2
  | addItem =>
    rw [h] at hfits
    exact (configAddMonitorSet_eq hw hfixed hfits.1 (Nat.le_refl _) hfits.2 (.inl rfl)).2
  | delItem =>
    rw [h] at hfits
    have hitems : (delFilterItems env pfn (ulFilterItemCounts pfn) 0 d).result =
        some (RtBackup.delFilterItems env (filterItems pfn 0 (ulFilterItemCounts pfn)) d) :=
      delFilterItems_eq fun i _ hi => hfits i (by rwa [Nat.zero_add] at hi)
    refine (Traced.result_readField_bind _ _ _).trans ((Traced.result_bind_pure _ _).trans ?_)
    exact congrArg (Option.map fun d => (saveConfig d, 0)) hitems
  | delSet | delAll | queryRunningStatus | queryLastShutdownStatus | resetLastShutdownStatus
  | other => rfl

end Pfn

/-- What is read of the message fits into it. -/
def SkBuff.Fits (skb : SkBuff) (skbOk : Bool) : Prop :=
  (skb.nlmsgType = rtbGet → Pfn.Fits skb.nlmsgData skb.payload) ∧
    (skb.nlmsgType = rtbSet → skbOk = true → 13 ≤ skb.payload)

/-- The packet is no message, or its message is shorter than a notification. -/
def SkBuff.TooShort (skb : SkBuff) : Prop :=
  ¬ (sizeofNlmsghdr ≤ skb.len ∧ sizeofNlmsghdr ≤ skb.nlmsgLen ∧ skb.nlmsgLen ≤ skb.len) ∨
    skb.nlmsgType = rtbGet ∧ skb.nlmsgLen < sizeofFilereplNotification

/-- All reads of the packet are inside its payload. When the message does not fit in
there, the answer is a refusal, and the driver is as before but for the number of
entries that it has allocated. -/
def ReadsInside (env : Env) (skb : SkBuff) (skbOk : Bool) (d : Driver) : Prop :=
  (netlinkRecvPacket env skb skbOk d).Inside skb.nlmsgData skb.payload ∧
    (¬ skb.Fits skbOk → ∃ k ret, (∀ r ∈ ret, Refused r) ∧
      (netlinkRecvPacket env skb skbOk d).result = some ({ d with nalloc := k }, ret))

/-- The message fits, or it is too short to be looked at, or it adds and is
refused in time. -/
def SkBuff.Harmless (env : Env) (skb : SkBuff) (skbOk : Bool) (d : Driver) : Prop :=
  skb.Fits skbOk ∨ skb.TooShort ∨
    skb.nlmsgType = rtbGet ∧ Pfn.AddRefused env skb.nlmsgData skb.payload d

instance (pfn : Memory) (payload : Nat) : Decidable (Pfn.Fits pfn payload) := by
  unfold Pfn.Fits Pfn.AddFits
  cases Pfn.type pfn <;> infer_instance

theorem netlinkProcessPacket_get_iff {env : Env} {d : Driver} (hw : d.WF) {skb : SkBuff}
    {skbOk : Bool} (hget : skb.nlmsgType = rtbGet)
    (hheader : sizeofNlmsghdr ≤ skb.len ∧ sizeofNlmsghdr ≤ skb.nlmsgLen ∧
      skb.nlmsgLen ≤ skb.len) :
    ReadsInside env skb skbOk d ↔ skb.Harmless env skbOk d := by
  have hrecv : netlinkRecvPacket env skb skbOk d =
      Pfn.processNetlinkCmd env skb.nlmsgData skb.nlmsgLen d >>= fun out =>
        pure (out.1, some out.2) :=
    ((if_pos hheader.1).trans (if_pos hheader.2)).trans (if_pos hget)
  have hset : skb.nlmsgType ≠ rtbSet := by
    rw [hget]
    decide
  have hfits : skb.Fits skbOk ↔ Pfn.Fits skb.nlmsgData skb.payload :=
    ⟨fun h => h.1 hget, fun h => ⟨fun _ => h, fun h' => absurd h' hset⟩⟩
  unfold ReadsInside SkBuff.Harmless SkBuff.TooShort
  rw [hrecv, Traced.inside_bind_pure, Traced.result_bind_pure, hfits, and_iff_right hget,
    and_iff_right hget]
  by_cases hlen : skb.nlmsgLen < sizeofFilereplNotification
  · have hcmd : Pfn.processNetlinkCmd env skb.nlmsgData skb.nlmsgLen d = pure (d, netParam) :=
      if_pos hlen
    rw [hcmd]
    refine iff_of_true ⟨Traced.inside_pure _, fun _ => ⟨_, some netParam, ?_, rfl⟩⟩
      (.inr (.inl (.inr hlen)))
    rintro r ⟨⟩
    exact ⟨by decide, by decide⟩
  · have hfixed : 292 ≤ skb.payload := by
      unfold SkBuff.payload
      unfold sizeofFilereplNotification sizeofNlmsghdr at *
      omega
    have hnot : ¬ (¬ (sizeofNlmsghdr ≤ skb.len ∧ sizeofNlmsghdr ≤ skb.nlmsgLen ∧
        skb.nlmsgLen ≤ skb.len) ∨ skb.nlmsgLen < sizeofFilereplNotification) :=
      fun h => h.elim (fun h => h hheader) hlen
    rw [or_iff_right hnot, ← Pfn.processNetlinkCmd_inside_iff hw hlen hfixed]
    refine and_congr_right fun _ => imp_congr_right fun _ => ?_
    constructor
    · rintro ⟨k, ret, hrefused, hresult⟩
      obtain ⟨⟨d', r⟩, hout, heq⟩ := Option.map_eq_some_iff.mp hresult
      obtain ⟨rfl, rfl⟩ := Prod.mk.inj heq
      exact ⟨k, r, hrefused r rfl, hout⟩
    · rintro ⟨k, r, hrefused, hresult⟩
      refine ⟨k, some r, ?_, by rw [hresult]; rfl⟩
      rintro r' ⟨⟩
      exact hrefused

theorem netlinkRecvPacket_inside_iff {env : Env} {d : Driver} (hw : d.WF) (skb : SkBuff)
    (skbOk : Bool) : ReadsInside env skb skbOk d ↔ skb.Harmless env skbOk d := by
  by_cases hheader : sizeofNlmsghdr ≤ skb.len ∧ sizeofNlmsghdr ≤ skb.nlmsgLen ∧
      skb.nlmsgLen ≤ skb.len
  · by_cases hget : skb.nlmsgType = rtbGet
    · exact netlinkProcessPacket_get_iff hw hget hheader
    · have hrecv : netlinkRecvPacket env skb skbOk d = netlinkProcessPacket env skb skbOk d :=
        (if_pos hheader.1).trans (if_pos hheader.2)
      have hfits : skb.Harmless env skbOk d ↔
          (skb.nlmsgType = rtbSet → skbOk = true → 13 ≤ skb.payload) := by
        refine (or_iff_left fun h => ?_).trans (and_iff_right fun h => absurd h hget)
        exact h.elim (fun h => h.elim (fun h => h hheader) fun h => hget h.1) fun h => hget h.1
      unfold ReadsInside
      rw [hrecv, hfits, netlinkProcessPacket, if_neg hget]
      by_cases hset : skb.nlmsgType = rtbSet
      · rw [if_pos hset, Traced.inside_bind_pure, forall_prop_of_true hset]
        cases skbOk with
        | true =>
          have hinside : (processHelloSet skb.nlmsgData true d).Inside skb.nlmsgData skb.payload ↔
              13 ≤ skb.payload := by
            show (Traced.readField _ _ _ >>= fun _ => pure _).Inside _ _ ↔ _
            rw [Traced.inside_bind_pure, Traced.inside_readField, Nat.zero_add]
            rfl
          rw [hinside, forall_prop_of_true rfl]
          exact and_iff_left_of_imp fun h hno =>
            absurd ⟨fun h' => absurd h' hget, fun _ _ => h⟩ hno
        | false =>
          exact iff_of_true ⟨Traced.inside_pure _, fun hno =>
            absurd ⟨fun h' => absurd h' hget, fun _ => nofun⟩ hno⟩ nofun
      · rw [if_neg hset]
        exact iff_of_true ⟨Traced.inside_pure _, fun hno =>
          absurd ⟨fun h' => absurd h' hget, fun h' => absurd h' hset⟩ hno⟩
          fun h => absurd h hset
  · have hrecv : netlinkRecvPacket env skb skbOk d = pure (d, none) := by
      unfold netlinkRecvPacket
      split
      · next hlen => exact if_neg fun h => hheader ⟨hlen, h⟩
      · rfl
    unfold ReadsInside
    rw [hrecv]
    exact iff_of_true ⟨Traced.inside_pure _, fun _ => ⟨_, none, nofun, rfl⟩⟩
      (.inr (.inl (.inl hheader)))

/-- In every state that commands, hooks, the writer thread and restarts can
reach, for every packet in any memory: the driver reads the message inside its
payload and inside the fields of its strings, and refuses it with nothing
changed if this cannot be done, exactly if the message fits, or is too short to
be looked at, or adds and is refused for another reason in time. -/
theorem netlink_reads_inside_iff (env : Env) (cnf : Bytes) (nalloc : Nat) (events : List Event) :
    ∀ s ∈ states (sysStep env) (Sys.start env cnf nalloc) events, ∀ (skb : SkBuff) (skbOk : Bool),
      ReadsInside env skb skbOk s.driver ↔ skb.Harmless env skbOk s.driver := by
  intro s hs skb skbOk
  have hw : s.driver.WF :=
    (invariant (fun s ev => sysStep_sound env s ev) (start_sound env cnf nalloc) events s hs).wf
  exact netlinkRecvPacket_inside_iff hw skb skbOk

/-! ## Concrete packets -/

/-- `DELITEM` in a packet of 572 bytes, which is a header and a notification with
one item; `count` is what it says it has. All strings are empty. -/
def delItemPacket (count : UInt8) : SkBuff where
  data
    | 0 => 0x3C
    | 1 => 2
    | 4 => 1
    | 16 => 9
    | 17 => 0x40
    | 44 => count
    | _ => 0
  len := 572

theorem netlink_reads_inside_iff_one_item :
    ReadsInside quietKernel (delItemPacket 1) true (Sys.start quietKernel [] 0).driver :=
  (netlink_reads_inside_iff quietKernel [] 0 [] _ (self_mem_states _ _) _ _).mpr
    (.inl ⟨fun _ => by decide +kernel, fun h => absurd h (by decide)⟩)

theorem second_item_read_outside :
    ¬ ReadsInside quietKernel (delItemPacket 2) true (Sys.start quietKernel [] 0).driver :=
  fun h => absurd h.1 (by decide +kernel)

end RtBackup
