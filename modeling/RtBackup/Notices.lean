import RtBackup.Communicate
import RtBackup.Lib.LossyLink
import RtBackup.LogGaps

/-!
# Notices to the client (`rtbnetlink.c`, `iowritethread.c`, `communicate.c`)

The driver sends a notification to answer a query, when `rtb_vfs_write` stops the
logging, and when a log file is not written. Any number of processes do so at once.
Each packet is queued at the socket of the client or dropped. A thread of the client
takes the packets off the socket and hands type and status to the callback of the
application, if one is registered.

Only messages of type `RTB_GET` come from the client. After a crash the driver and
the client start again, and so does the history.

Results:
1. `threadEntry_packet`: the thread hands on what was put into a packet.
2. `watchRun_invariant`: the rule of invariants, which also says that a run is defined.
3. `watch_delivers`: every notification waits at its sender, is lost, or is sent
   once. The thread sees what was sent, in order, and nothing else.
-/

namespace RtBackup

open ByteFile Blocks Runs LossyLink

/-! ## Notifications -/

/-- The arguments of `notify_user_status`, as they are stored. -/
structure Notice where
  type : UInt32
  status : UInt32
deriving DecidableEq

def notifyTypeQueryRunningStatus : UInt32 := 0x4005
def notifyTypeQueryLastShutdownStatus : UInt32 := 0x400B
def notifyTypeClientError : UInt32 := 0x400D

namespace Notice

/-- The answer to `NOTIFY_TYPE_QUERY_RUNNING_STATUS`. -/
def running (status : UInt32) : Notice := ⟨notifyTypeQueryRunningStatus, status⟩

def clientError (status : UInt32) : Notice := ⟨notifyTypeClientError, status⟩

/-- `rtb_vfs_write` has stopped the logging. -/
def writeFailed : Notice := clientError (UInt32.ofInt (-3))

/-- The writer thread has freed a record that is not written. -/
def logFailed : Notice := clientError (UInt32.ofInt (-2))

/-- The `FILEREPL_NOTIFICATION` that `kzalloc` gives, with both fields set. -/
def bytes (n : Notice) : Bytes :=
  Codec.u32.enc n.type ++ (Codec.u32.enc n.status ++ zeros sizeofRealtimeBackupData)

/-- What the application is told. -/
def args (n : Notice) : Int × Int := (toInt n.type.toNat, toInt n.status.toNat)

end Notice

/-- The packet of `netlink_to_user` in the memory that `alloc_skb` gives, if it
gives any. `nlmsg_len` is the length of the data alone. -/
def netlinkToUser (skb : Option (Nat → UInt8)) (buf : Bytes) : Option Bytes :=
  skb.map fun fresh =>
    (leBytes 4 buf.length ++ (leBytes 2 0 ++ (leBytes 2 0 ++ (leBytes 4 0 ++ leBytes 4 0)))) ++
      (buf ++ (List.range (nlmsgSpace buf.length - (sizeofNlmsghdr + buf.length))).map fresh)

/-! ## Who sends what -/

/-- `if(iret != 0)` of `rtb_vfs_write`. -/
def iretNotices (h : Hook) (iret : Int) : List Notice :=
  if h.iret.isSome ∧ iret ≠ 0 then [.writeFailed] else []

/-- What a hook sends after the original function. -/
def hookExitNotices (allocOk : Bool) (ret : Int) (h : Hook) (entered : Entered) (d : Driver) :
    List Notice :=
  match entered with
  | .bypass => []
  | .unlogged => iretNotices h (h.iret.getD 0)
  | .logged seqNo => iretNotices h (enqueueIolog allocOk (h.recordOf ret seqNo) d).2

/-- What `process_netlink_cmd` sends. -/
def cmdNotices (env : Env) (d : Driver) (c : Notification) : List Notice :=
  let status := (processNetlinkCmd env d c).2.2
  match c with
  | .queryRunningStatus => status.toList.map (⟨notifyTypeQueryRunningStatus, ·⟩)
  | .queryLastShutdownStatus => status.toList.map (⟨notifyTypeQueryLastShutdownStatus, ·⟩)
  | _ => []

/-- What a hook that returns sends. -/
def leaveNotices (op : Nat) (allocOk : Bool) (s : Sys) : List Notice :=
  match s.running.find? fun r => r.op = op ∧ r.ret ≠ none with
  | some ⟨_, h, entered, _, some ret⟩ => hookExitNotices allocOk ret h entered s.driver
  | _ => []

/-- What `createiolog` and then the writer thread send. `filep` is the error of
`file_open`. -/
def createIologNotices (filep : UInt32) (outcome : LogOutcome) (s : Sys) : List Notice :=
  match s.writer, outcome with
  | .writing _, .openFailed => [.clientError filep, .logFailed]
  | .writing _, .shortWrite => [.logFailed]
  | _, _ => []

/-- What a step of the driver sends, in order. -/
def notices (env : Env) (s : Sys) (filep : UInt32) : Event → List Notice
  | .command c => cmdNotices env s.driver c
  | .leave op allocOk => leaveNotices op allocOk s
  | .createIolog outcome => createIologNotices filep outcome s
  | .enter _ _ | .perform _ _ | .dequeue | .save | .crash => []

/-! ## The thread of the client -/

/-- What `netlink_recv` returns and stores. -/
structure Received where
  ret : Int
  rbuf : Bytes
  rlen : Option Int

/-- `netlink_recv`, with what `recvmsg` gives, if it gives a packet. Undefined where
it accesses a byte that is not in the buffer or in `rbuf`. -/
def netlinkRecv (mallocOk : Bool) (type : Nat) (recvmsg : Option Bytes) (rbuf : Bytes) :
    Option Received :=
  if ¬ mallocOk then some ⟨netMem, rbuf, none⟩
  else
    match recvmsg with
    | none => some ⟨netSock, rbuf, none⟩
    | some packet => do
      let size := nlmsgSpace maxMsgLen
      let nlhdr ← store (nlmsghdr size type ++ zeros (size - sizeofNlmsghdr)) 0 (packet.take size)
      let nlmsgLen ← load nlhdr 0 4
      let data ← load nlhdr sizeofNlmsghdr (leVal nlmsgLen)
      let rbuf ← store rbuf 0 data
      pure ⟨netOk, rbuf, some (toInt (leVal nlmsgLen))⟩

/-- `ProcessRecvMessage` up to the call of `OnNotifyUserApp`. -/
def processRecvMessage (notification : Bytes) : Option (Int × Int) := do
  let type ← load notification 0 4
  let status ← load notification 4 4
  pure (toInt (leVal type), toInt (leVal status))

/-- A round of `thread_entry`: `replnotify`, and what `OnNotifyUserApp` is called
with. -/
def threadEntry (mallocOk : Bool) (recvmsg : Option Bytes) (replnotify : Bytes) :
    Option (Bytes × Option (Int × Int)) := do
  let received ← netlinkRecv mallocOk rtbCmd recvmsg replnotify
  if received.ret = netOk then
    -- `wszBakCacheDir` is printed
    let _ ← strlen received.rbuf (backupDataOffset + BackupData.wszBakCacheDirOffset)
    let args ← processRecvMessage received.rbuf
    pure (received.rbuf, some args)
  else pure (received.rbuf, none)

/-! ## The driver and the client -/

structure Watched where
  sys : Sys
  /-- The senders of the driver, and the history of their notifications. -/
  link : Link Notice
  /-- The packets at the socket of the client. -/
  socket : List Bytes
  replnotify : Bytes
  /-- `DealKernelMsgCallback` is set. -/
  callback : Bool
  /-- The calls of `OnNotifyUserApp`. -/
  seen : List (Int × Int)
  /-- The calls of the callback. -/
  heard : List (Int × Int)
  /-- The records appended to the queue. -/
  queued : List LoggedOp
  /-- The records freed and not written. -/
  dropped : List LoggedOp

/-- The client has just started. Of the records of earlier runs of the driver those
are left that were written. -/
def Watched.start (s : Sys) : Watched where
  sys := s
  link := {}
  socket := []
  replnotify := zeros sizeofFilereplNotification
  callback := false
  seen := []
  heard := []
  queued := s.written
  dropped := []

/-- What the thread meets. Without a packet `recvmsg` waits. -/
inductive Receiving where
  | mallocFailed
  | recvmsgFailed
  | packet

inductive WatchEvent where
  | driver (ev : Event) (filep : UInt32)
  /-- The sender goes on with its next notification. -/
  | netlinkToUser (sender : Nat) (skb : Option (Nat → UInt8)) (unicast : Bool)
  | registerUserAppNotify (callback : Bool)
  | receive (outcome : Receiving)

def Watched.round (mallocOk : Bool) (recvmsg : Option Bytes) (w : Watched) : Option Watched := do
  let out ← threadEntry mallocOk recvmsg w.replnotify
  pure { w with
    replnotify := out.1
    seen := w.seen ++ out.2.toList
    heard := w.heard ++ if w.callback then out.2.toList else [] }

def Watched.receive (w : Watched) : Receiving → Option Watched
  | .mallocFailed => w.round false none
  | .recvmsgFailed => w.round true none
  | .packet =>
    match w.socket with
    | [] => some w
    | packet :: socket => { w with socket := socket, link := w.link.take }.round true (some packet)

/-- The packet of a sender that arrives at the socket. -/
def arriving (link : Link Notice) (sender : Nat) (skb : Option (Nat → UInt8)) (unicast : Bool) :
    Option Bytes :=
  (link.posted sender (unicast && skb.isSome)).bind fun n => netlinkToUser skb n.bytes

def queuedBy (s : Sys) : Event → List LoggedOp
  | .leave op allocOk => (s.leave op allocOk).queue.drop s.queue.length
  | _ => []

def droppedBy (s : Sys) : Event → List LoggedOp
  | .createIolog .openFailed | .createIolog .shortWrite => s.writer.current
  | _ => []

def watchStep (env : Env) (w : Watched) : WatchEvent → Option Watched
  | .driver .crash _ => some (.start (w.sys.crash env))
  | .driver ev filep => some { w with
      sys := sysStep env w.sys ev
      link := w.link.issue (notices env w.sys filep ev)
      queued := w.queued ++ queuedBy w.sys ev
      dropped := w.dropped ++ droppedBy w.sys ev }
  | .netlinkToUser sender skb unicast => some { w with
      link := w.link.post sender (unicast && skb.isSome)
      socket := w.socket ++ (arriving w.link sender skb unicast).toList }
  | .registerUserAppNotify callback => some { w with callback := callback }
  | .receive outcome => w.receive outcome

def watchRun (env : Env) (cnf : Bytes) (nalloc : Nat) (events : List WatchEvent) : Option Watched :=
  events.foldlM (watchStep env) (.start (.start env cnf nalloc))

/-! ## One packet -/

namespace Notice

theorem length_bytes (n : Notice) : n.bytes.length = sizeofFilereplNotification := by
  simp only [bytes, List.length_append, Codec.enc_length, length_zeros]
  rfl

/-- The packet of a notification. There is no padding behind it. -/
def packet (n : Notice) : Bytes :=
  (leBytes 4 sizeofFilereplNotification ++
    (leBytes 2 0 ++ (leBytes 2 0 ++ (leBytes 4 0 ++ leBytes 4 0)))) ++ n.bytes

theorem length_packet (n : Notice) :
    n.packet.length = sizeofNlmsghdr + sizeofFilereplNotification := by
  simp only [packet, List.length_append, leBytes_length, length_bytes]
  rfl

theorem netlinkToUser_bytes (skb : Option (Nat → UInt8)) (n : Notice) :
    netlinkToUser skb n.bytes = skb.map fun _ => n.packet := by
  have hpad : nlmsgSpace sizeofFilereplNotification -
      (sizeofNlmsghdr + sizeofFilereplNotification) = 0 := by decide
  rw [netlinkToUser, length_bytes, hpad, List.range_zero]
  simp only [List.map_nil, List.append_nil]
  rfl

/-- Different notifications are told apart. -/
theorem args_injective : Function.Injective args := by
  have hword : ∀ a b : UInt32, toInt a.toNat = toInt b.toNat → a = b := by
    intro a b h
    have hmod := congrArg (· % ((2 ^ 32 : Nat) : Int)) h
    simp only [toInt, Int.bmod_emod] at hmod
    have ha := a.toNat_lt
    have hb := b.toNat_lt
    exact UInt32.toNat_inj.mp (by omega)
  intro m n h
  obtain ⟨htype, hstatus⟩ := Prod.mk.inj h
  cases m
  cases n
  exact congrArg₂ Notice.mk (hword _ _ htype) (hword _ _ hstatus)

end Notice

/-- The buffer of `netlink_recv` with a packet in it. -/
theorem store_packet (n : Notice) (type : Nat) :
    ∃ rest, store (nlmsghdr (nlmsgSpace maxMsgLen) type ++
        zeros (nlmsgSpace maxMsgLen - sizeofNlmsghdr)) 0
      (n.packet.take (nlmsgSpace maxMsgLen)) = some (n.packet ++ rest) := by
  have hsize : sizeofNlmsghdr + sizeofFilereplNotification ≤ nlmsgSpace maxMsgLen := by decide
  have hall : n.packet.take (nlmsgSpace maxMsgLen) = n.packet :=
    List.take_of_length_le (n.length_packet.trans_le hsize)
  have hlen : sizeofNlmsghdr + sizeofFilereplNotification ≤
      (nlmsghdr (nlmsgSpace maxMsgLen) type ++
        zeros (nlmsgSpace maxMsgLen - sizeofNlmsghdr)).length := by
    rw [List.length_append, length_nlmsghdr, length_zeros]
    omega
  obtain ⟨front, rest, hblock, hfront⟩ := exists_append_of_le hlen
  rw [hall, hblock]
  exact ⟨rest, store_append (x := []) rfl (hfront.trans n.length_packet.symm)⟩

/-- `netlink_recv` copies the notification of a packet over `rbuf`. -/
theorem netlinkRecv_packet (n : Notice) (type : Nat) {rbuf : Bytes}
    (h : rbuf.length = sizeofFilereplNotification) :
    netlinkRecv true type (some n.packet) rbuf =
      some ⟨netOk, n.bytes, some sizeofFilereplNotification⟩ := by
  obtain ⟨rest, hstore⟩ := store_packet n type
  have hlen : load (n.packet ++ rest) 0 4 = some (leBytes 4 sizeofFilereplNotification) := by
    rw [Notice.packet, List.append_assoc, List.append_assoc]
    exact load_append (x := []) rfl (leBytes_length _ _)
  have hval : leVal (leBytes 4 sizeofFilereplNotification) = sizeofFilereplNotification := by
    decide
  have hdata : load (n.packet ++ rest) sizeofNlmsghdr sizeofFilereplNotification =
      some n.bytes := by
    rw [Notice.packet, List.append_assoc]
    refine load_append ?_ n.length_bytes
    simp only [List.length_append, leBytes_length]
    rfl
  have hcopy : store rbuf 0 n.bytes = some n.bytes := by
    have hstore : store ([] ++ (rbuf ++ [])) 0 n.bytes = some ([] ++ (n.bytes ++ [])) :=
      store_append rfl (h.trans n.length_bytes.symm)
    simpa only [List.nil_append, List.append_nil] using hstore
  have hint : toInt sizeofFilereplNotification = sizeofFilereplNotification := by decide
  simp only [netlinkRecv, not_true, if_false, hstore, hlen, hval, hdata, hcopy, hint,
    Option.bind_eq_bind, Option.bind_some, Option.pure_def]

theorem processRecvMessage_bytes (n : Notice) : processRecvMessage n.bytes = some n.args := by
  have hval : ∀ v : UInt32, leVal (Codec.u32.enc v) = v.toNat := fun v => by
    rw [Codec.u32, leVal_leBytes]
    exact Nat.mod_eq_of_lt v.toNat_lt
  have htype : load n.bytes 0 4 = some (Codec.u32.enc n.type) :=
    load_append (x := []) rfl (Codec.u32.enc_length _)
  have hstatus : load n.bytes 4 4 = some (Codec.u32.enc n.status) :=
    load_append (Codec.u32.enc_length _) (Codec.u32.enc_length _)
  simp only [processRecvMessage, htype, hstatus, hval, Option.bind_eq_bind, Option.bind_some]
  rfl

/-- The cache directory in a notification is empty. -/
theorem strlen_bytes (n : Notice) :
    strlen n.bytes (backupDataOffset + BackupData.wszBakCacheDirOffset) = some 0 := by
  have hsplit : zeros sizeofRealtimeBackupData =
      zeros BackupData.wszBakCacheDirOffset ++ ([] ++ 0 :: zeros 523) :=
    zeros_add BackupData.wszBakCacheDirOffset 524
  rw [Notice.bytes, hsplit, ← List.append_assoc, ← List.append_assoc]
  refine strlen_append ?_ List.not_mem_nil
  simp only [List.length_append, Codec.enc_length, length_zeros]
  rfl

/-- The thread hands on the type and the status that were put into a packet. -/
theorem threadEntry_packet (n : Notice) {replnotify : Bytes}
    (h : replnotify.length = sizeofFilereplNotification) :
    threadEntry true (some n.packet) replnotify = some (n.bytes, some n.args) := by
  simp only [threadEntry, netlinkRecv_packet n rtbCmd h, strlen_bytes, processRecvMessage_bytes,
    Option.bind_eq_bind, Option.bind_some, if_true]
  rfl

/-- Without a packet it does nothing. -/
theorem threadEntry_none (mallocOk : Bool) (replnotify : Bytes) :
    threadEntry mallocOk none replnotify = some (replnotify, none) := by
  cases mallocOk <;> rfl

/-! ## Delivery -/

/-- What the socket, the thread and the callback have of the notifications. -/
structure Delivering (w : Watched) : Prop where
  link : w.link.Sound
  socket : w.socket = w.link.queue.map Notice.packet
  seen : w.seen = w.link.taken.map Notice.args
  heard : w.heard.Sublist w.seen
  replnotify : w.replnotify.length = sizeofFilereplNotification

theorem start_delivering (s : Sys) : Delivering (.start s) where
  link := sound_empty
  socket := rfl
  seen := rfl
  heard := List.Sublist.refl _
  replnotify := length_zeros _

theorem round_none (w : Watched) (mallocOk : Bool) : w.round mallocOk none = some w := by
  simp only [Watched.round, threadEntry_none, Option.bind_eq_bind, Option.bind_some,
    Option.toList_none, ite_self, List.append_nil]
  rfl

/-- The thread gets nothing, or takes the first packet off the socket. -/
theorem receive_cases {w : Watched} (hw : Delivering w) (outcome : Receiving) :
    (w.receive outcome = some w ∧ (outcome = .packet → w.link.queue = [])) ∨
    ∃ n rest, outcome = .packet ∧ w.link.queue = n :: rest ∧ w.receive outcome = some { w with
      link := w.link.take
      socket := rest.map Notice.packet
      replnotify := n.bytes
      seen := w.seen ++ [n.args]
      heard := w.heard ++ if w.callback then [n.args] else [] } := by
  cases outcome with
  | mallocFailed => exact .inl ⟨round_none w false, nofun⟩
  | recvmsgFailed => exact .inl ⟨round_none w true, nofun⟩
  | packet =>
    cases hq : w.link.queue with
    | nil =>
      refine .inl ⟨?_, fun _ => rfl⟩
      rw [Watched.receive, hw.socket, hq]
      rfl
    | cons n rest =>
      refine .inr ⟨n, rest, rfl, rfl, ?_⟩
      rw [Watched.receive, hw.socket, hq]
      simp only [List.map_cons, Watched.round, threadEntry_packet n hw.replnotify,
        Option.bind_eq_bind, Option.bind_some]
      rfl

/-- Exactly the notification that a sender sends arrives at the socket. -/
theorem arriving_eq (link : Link Notice) (sender : Nat) (skb : Option (Nat → UInt8))
    (unicast : Bool) : arriving link sender skb unicast =
      (link.posted sender (unicast && skb.isSome)).map Notice.packet := by
  unfold arriving
  cases skb with
  | none =>
    have hlost : link.posted sender (unicast && (none : Option (Nat → UInt8)).isSome) = none := by
      simp [Link.posted]
    rw [hlost]
    rfl
  | some fresh =>
    simp only [Notice.netlinkToUser_bytes, Option.map_some]
    exact Option.map_eq_bind.symm

theorem watchStep_delivering (env : Env) {w : Watched} (hw : Delivering w) (ev : WatchEvent) :
    ∃ w', watchStep env w ev = some w' ∧ Delivering w' := by
  cases ev with
  | driver ev filep =>
    cases ev with
    | crash => exact ⟨_, rfl, start_delivering _⟩
    | _ => exact ⟨_, rfl, hw.link.issue _, hw.socket, hw.seen, hw.heard, hw.replnotify⟩
  | netlinkToUser sender skb unicast =>
    refine ⟨_, rfl, hw.link.post _ _, ?_, ?_, hw.heard, hw.replnotify⟩
    · show w.socket ++ _ = (w.link.post _ _).queue.map _
      rw [post_queue, hw.socket, arriving_eq, List.map_append, Option.toList_map]
    · show w.seen = (w.link.post _ _).taken.map _
      rw [post_taken, hw.seen]
  | registerUserAppNotify callback =>
    exact ⟨_, rfl, hw.link, hw.socket, hw.seen, hw.heard, hw.replnotify⟩
  | receive outcome =>
    rcases receive_cases hw outcome with ⟨heq, -⟩ | ⟨n, rest, -, hq, heq⟩
    · exact ⟨w, heq, hw⟩
    · refine ⟨_, heq, hw.link.take, ?_, ?_, ?_, n.length_bytes⟩
      · show rest.map _ = w.link.take.queue.map _
        rw [take_cons hq]
      · show w.seen ++ [n.args] = w.link.take.taken.map _
        rw [take_cons hq, hw.seen, List.map_append]
        rfl
      · refine hw.heard.append ?_
        split
        · exact List.Sublist.refl _
        · exact List.nil_sublist _

/-- The rule of invariants for the runs of the driver and the client. -/
theorem watchRun_invariant (env : Env) (cnf : Bytes) (nalloc : Nat) {events : List WatchEvent}
    {I : Watched → Prop} (hstart : I (.start (.start env cnf nalloc)))
    (hstep : ∀ w, ∀ ev ∈ events, ∀ w', Delivering w → I w → watchStep env w ev = some w' → I w') :
    ∃ w, watchRun env cnf nalloc events = some w ∧ Delivering w ∧ I w := by
  have hkeep : ∀ done e rest w w', done ++ e :: rest = events → Delivering w ∧ I w →
      watchStep env w e = some w' → Delivering w' ∧ I w' := by
    intro done e rest w w' hall hw heq
    obtain ⟨u, hu, hdel⟩ := watchStep_delivering env hw.1 e
    obtain rfl := Option.some.inj (hu.symm.trans heq)
    exact ⟨hdel, hstep w e (hall ▸ List.mem_append_right _ List.mem_cons_self) u hw.1 hw.2 hu⟩
  have hsome := foldlM_isSome (I := fun _ w => Delivering w ∧ I w) hkeep
    (fun _ e w hw => by
      obtain ⟨w', hw', -⟩ := watchStep_delivering env hw.1 e
      rw [hw']
      rfl)
    (List.nil_append events) ⟨start_delivering _, hstart⟩
  obtain ⟨w, hw⟩ := Option.isSome_iff_exists.mp hsome
  exact ⟨w, hw, foldlM_invariant (I := fun _ w => Delivering w ∧ I w) hkeep
    (List.nil_append events) ⟨start_delivering _, hstart⟩ hw⟩

/-- Rounds of the thread that get a packet take the packets one by one. -/
theorem receive_iterate (env : Env) (k : Nat) {w : Watched} (hw : Delivering w) :
    ∃ w', (List.replicate k (.receive .packet)).foldlM (watchStep env) w = some w' ∧
      Delivering w' ∧ w'.link = Link.take^[k] w.link := by
  induction k generalizing w with
  | zero => exact ⟨w, rfl, hw, rfl⟩
  | succ k ih =>
    obtain ⟨u, hu, hdel⟩ := watchStep_delivering env hw (.receive .packet)
    obtain ⟨w', hw', hdel', hlink⟩ := ih hdel
    have htake : u.link = w.link.take := by
      rcases receive_cases hw .packet with ⟨heq, hnil⟩ | ⟨n, rest, -, -, heq⟩
      · obtain rfl := Option.some.inj (hu.symm.trans heq)
        exact (take_nil (hnil rfl)).symm
      · obtain rfl := Option.some.inj (hu.symm.trans heq)
        rfl
    refine ⟨w', ?_, hdel', ?_⟩
    · rw [List.replicate_succ, List.foldlM_cons, hu]
      exact hw'
    · rw [hlink, htake, Function.iterate_succ_apply]

/-- In every run the notifications that were issued wait at their senders, are lost
or were sent, each once. The thread has seen the first of those that were sent, in
order, and nothing else, and the callback some of these. When the thread has taken the
packets that are at the socket, it has seen all that was sent. -/
theorem watch_delivers (env : Env) (cnf : Bytes) (nalloc : Nat) (events : List WatchEvent) :
    ∃ w, watchRun env cnf nalloc events = some w ∧
      w.link.issued.Perm (w.link.sent ++ (w.link.lost ++ w.link.outbox.flatten)) ∧
      w.seen <+: w.link.sent.map Notice.args ∧ w.heard.Sublist w.seen ∧
      ∃ w', (List.replicate w.socket.length (.receive .packet)).foldlM (watchStep env) w = some w' ∧
        w'.socket = [] ∧ w'.seen = w.link.sent.map Notice.args := by
  obtain ⟨w, hw, hdel, -⟩ := watchRun_invariant env cnf nalloc (I := fun _ => True)
    trivial fun _ ev (_ : ev ∈ events) _ _ _ _ => trivial
  refine ⟨w, hw, hdel.link.issued_perm, ?_, hdel.heard, ?_⟩
  · rw [hdel.seen]
    exact hdel.link.taken_prefix.map _
  · obtain ⟨w', hrun, hdel', hlink⟩ := receive_iterate env w.socket.length hdel
    rw [hdel.socket, List.length_map, iterate_take] at hlink
    refine ⟨w', hrun, ?_, ?_⟩
    · rw [hdel'.socket, hlink]
      rfl
    · rw [hdel'.seen, hlink, hdel.link.sent_eq]

end RtBackup
