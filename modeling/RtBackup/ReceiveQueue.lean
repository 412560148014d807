import RtBackup.Lib.Draining
import RtBackup.Netlink

/-!
# The receive queue before 2.6.19 (`rtbnetlink.c`)

In these kernels a sender appends its packet to the receive queue of the socket and
then calls `netlink_receive_user_sk`, which reads the length of the queue once and
handles at most as many packets. Senders on several processors run it at once, each on
what it finds, so that a packet may be handled in the call of another sender, and two
calls may handle packets in another order than they took them.

`netlink_recv_packet` takes a reference to its packet, which nobody gives back.

Results:
1. `netlinkRecvPacket_command`: a packet with a command that fits does what the command
   does.
2. `receive_once`: in every interleaving each packet is handled at most once, and all
   are when all calls have returned. No packet is freed.
-/

namespace RtBackup

open ByteFile BoundedReads Runs Draining

/-! ## Definitions -/

/-- `skb_get` and `kfree_skb` on the number of references. A packet is freed with the
last one. -/
def skbGet (users : Nat) : Nat := users + 1
def kfreeSkb (users : Nat) : Nat := users - 1

/-- What the calls work on. -/
structure Receiver where
  /-- None where a packet made the driver undefined. -/
  driver : Option Driver
  /-- The packets that were not freed. -/
  kept : List SkBuff

/-- A round of the loop of `netlink_receive_user_sk`. With the packet goes whether
`alloc_skb` gives memory for an answer. -/
def netlinkReceiveOne (env : Env) (r : Receiver) (a : SkBuff × Bool) : Receiver where
  driver := r.driver.bind fun d => (netlinkRecvPacket env a.1 a.2 d).result.map Prod.fst
  kept := if kfreeSkb (skbGet 1) = 0 then r.kept else r.kept ++ [a.1]

/-- Packets that arrive, and the steps of the calls, in any order. -/
def receiveRun (env : Env) (cnf : Bytes) (nalloc : Nat)
    (events : List (Draining.Event (SkBuff × Bool))) : Pool Receiver (SkBuff × Bool) :=
  run (step (netlinkReceiveOne env)) { state := ⟨some (initMonitorSet env cnf nalloc), []⟩ } events

/-- The message is a notification that is read inside its payload. -/
structure SkBuff.IsCommand (skb : SkBuff) : Prop where
  header : sizeofNlmsghdr ≤ skb.nlmsgLen
  inside : skb.nlmsgLen ≤ skb.len
  type : skb.nlmsgType = rtbGet
  whole : sizeofFilereplNotification ≤ skb.nlmsgLen
  fits : Pfn.Fits skb.nlmsgData skb.payload

/-- The command of a packet. -/
def SkBuff.command (skb : SkBuff) : Notification := Pfn.notification skb.nlmsgData

/-! ## One packet -/

theorem netlinkRecvPacket_command {env : Env} {d : Driver} (hw : d.WF) {skb : SkBuff}
    (h : skb.IsCommand) (skbOk : Bool) :
    (netlinkRecvPacket env skb skbOk d).result.map Prod.fst =
      some (processNetlinkCmd env d skb.command).1 := by
  have hlen : sizeofNlmsghdr ≤ skb.len := h.header.trans h.inside
  have hrecv : netlinkRecvPacket env skb skbOk d =
      Pfn.processNetlinkCmd env skb.nlmsgData skb.nlmsgLen d >>= fun out =>
        pure (out.1, some out.2) :=
    ((if_pos hlen).trans (if_pos ⟨h.header, h.inside⟩)).trans (if_pos h.type)
  rw [hrecv, Traced.result_bind_pure, Pfn.processNetlinkCmd_eq hw (Nat.not_lt.mpr h.whole) h.fits]
  rfl

/-- Packets with commands, one after the other. -/
theorem foldl_commands {env : Env} {packets : List (SkBuff × Bool)}
    (h : ∀ a ∈ packets, a.1.IsCommand) {d : Driver} (hw : d.WF) (kept : List SkBuff) :
    (packets.foldl (netlinkReceiveOne env) ⟨some d, kept⟩).driver =
      some (packets.foldl (fun d a => (processNetlinkCmd env d a.1.command).1) d) := by
  induction packets generalizing d kept with
  | nil => rfl
  | cons a packets ih =>
    obtain ⟨ha, hrest⟩ := List.forall_mem_cons.mp h
    rw [List.foldl_cons, List.foldl_cons, netlinkReceiveOne, Option.bind_some,
      netlinkRecvPacket_command hw ha]
    exact ih hrest (opStep_wf env d (.command a.1.command) hw) _

/-- The reference that `netlink_recv_packet` takes keeps every packet. -/
theorem foldl_kept (env : Env) (packets : List (SkBuff × Bool)) (r : Receiver) :
    (packets.foldl (netlinkReceiveOne env) r).kept = r.kept ++ packets.map Prod.fst := by
  have held : kfreeSkb (skbGet 1) ≠ 0 := by decide
  induction packets generalizing r with
  | nil => exact (List.append_nil _).symm
  | cons a packets ih =>
    rw [List.foldl_cons, ih, netlinkReceiveOne, if_neg held, List.append_assoc]
    rfl

/-! ## Every interleaving -/

/-- What holds of the calls at any time, with the driver `d` at the start. -/
structure HandledOnce (env : Env) (d : Driver) (p : Pool Receiver (SkBuff × Bool)) : Prop where
  atMost : p.handled.Subperm p.arrived
  kept : p.state.kept = p.handled.map Prod.fst
  /-- The calls end after so many steps, whoever takes them. -/
  ends : ∀ later, Along (step (netlinkReceiveOne env)) LiveStep p later →
    later.length ≤ remaining p ∧
      (later.length = remaining p ↔ AllReturned (run (step (netlinkReceiveOne env)) p later))
  queue : AllReturned p → p.queue = []
  all : AllReturned p → p.handled.Perm p.arrived
  driver : AllReturned p → (∀ a ∈ p.arrived, a.1.IsCommand) →
    p.state.driver = some (p.handled.foldl (fun d a => (processNetlinkCmd env d a.1.command).1) d)

/-- In every interleaving no packet is handled twice and none is freed, and the calls
take exactly the steps that are ahead of them. When all have returned, the queue is
empty and each packet was handled once. If the packets are commands, the driver is what
these make of it one after the other. -/
theorem receive_once (env : Env) (cnf : Bytes) (nalloc : Nat)
    (events : List (Draining.Event (SkBuff × Bool))) :
    HandledOnce env (initMonitorSet env cnf nalloc) (receiveRun env cnf nalloc events) := by
  have hsound := fun evs => sound_run (netlinkReceiveOne env)
    ⟨some (initMonitorSet env cnf nalloc), []⟩ evs
  have h := hsound events
  refine ⟨h.handled_subperm, ?_, fun later hlive => ?_, h.queue_eq_nil, h.handled_perm,
    fun hall hcommands => ?_⟩
  · rw [receiveRun, h.state, foldl_kept]
    rfl
  · have hsteps := length_add_remaining hlive
    have hlater := hsound (events ++ later)
    rw [run, List.foldl_append] at hlater
    have hzero := remaining_eq_zero_iff hlater
    refine ⟨Nat.le.intro hsteps, ?_⟩
    rw [run, receiveRun, run, ← hzero]
    rw [run, receiveRun, run] at hsteps
    omega
  · rw [receiveRun, h.state]
    refine foldl_commands (fun a ha => hcommands a ?_) (initMonitorSet_wf env cnf nalloc) []
    exact (h.handled_perm hall).subset ha

end RtBackup
