import RtBackup.Threads

/-!
# The status of the last shutdown (`rtbnetlink.c`, `module.c`)

The reboot notifier stores `systemshutdown` in `dwLastNormalShutdown` and saves,
`LoadConfig` reads the word back, and a client asks for it to learn whether the
machine went down properly. `process_netlink_cmd` overwrites the word with
`systemrunning` before it answers the question, so the file is never consulted.

A history is a sequence of sessions of the driver, each started on the file that
the one before it left.

Results:
1. `myreboot_status`: the notifier leaves `systemshutdown` in the file.
2. `firstAnswer_eq`: the first answer of a session is `systemrunning`, whatever
   happened before.
3. `answers_true_iff`: the first answers of a history are true exactly if no
   session that asks follows a crash.
4. `crash_reported_as_normal`: a crash, and a session that asks.
-/

namespace RtBackup

open ByteFile Runs

/-! ## Sessions -/

/-- `systemshutdown` and `systemexceptionreboot` of `enumShutdownState`. -/
def systemshutdown : UInt32 := 2
def systemexceptionreboot : UInt32 := 3

/-- The reboot notifier. -/
def myreboot (d : Driver) : Driver :=
  saveConfig { d with dwLastNormalShutdown := systemshutdown }

inductive Ending where
  | notifier
  /-- A crash at any point, with the file that it leaves: a `SaveConfig` may be
  under way. -/
  | crash (cnf : Bytes)
deriving DecidableEq

/-- A session from `InitMonitorSet` on. -/
structure Session where
  env : Env
  nalloc : Nat
  events : List Event
  /-- A crash is the end of a session. -/
  one_boot : ∀ ev ∈ events, ev ≠ .crash
  ending : Ending

def Session.asks (session : Session) : Prop :=
  .command .queryLastShutdownStatus ∈ session.events

/-- What `notify_user_status` first sends for
`NOTIFY_TYPE_QUERY_LAST_SHUTDOWN_STATUS`. -/
def firstAnswer (env : Env) : Sys → List Event → Option UInt32
  | _, [] => none
  | s, .command .queryLastShutdownStatus :: _ =>
    (processNetlinkCmd env s.driver .queryLastShutdownStatus).2.2
  | s, ev :: events => firstAnswer env (sysStep env s ev) events

/-- The machine between two sessions. -/
structure Machine where
  cnf : Bytes
  /-- How the last session ended. -/
  last : Option Ending

def Session.start (session : Session) (m : Machine) : Sys :=
  Sys.start session.env m.cnf session.nalloc

def boot (m : Machine) (session : Session) : Machine where
  cnf :=
    match session.ending with
    | .notifier =>
      (myreboot (run (sysStep session.env) (session.start m) session.events).driver).cnf
    | .crash cnf => cnf
  last := some session.ending

/-- The first answer of a session tells how the one before it ended. -/
def AnswersTrue (m : Machine) (session : Session) : Prop :=
  ∀ a ∈ firstAnswer session.env (session.start m) session.events,
    (m.last = some .notifier → a = systemrunning) ∧
    ∀ cnf, m.last = some (.crash cnf) → a = systemexceptionreboot

/-- A session that asks does not follow a crash. -/
def NotAfterCrash (m : Machine) (session : Session) : Prop :=
  session.asks → ∀ cnf, m.last ≠ some (.crash cnf)

/-! ## Answers -/

theorem myreboot_status {d : Driver} (hfit : ConfigFits d) :
    configShutdownStatus (myreboot d).cnf = some systemshutdown :=
  configShutdownStatus_saveConfig (d := { d with dwLastNormalShutdown := systemshutdown }) hfit

theorem firstAnswer_eq (env : Env) (s : Sys) (events : List Event) :
    (.command .queryLastShutdownStatus ∈ events →
      firstAnswer env s events = some systemrunning) ∧
    (.command .queryLastShutdownStatus ∉ events → firstAnswer env s events = none) := by
  fun_induction firstAnswer env s events with
  | case1 => exact ⟨fun h => absurd h List.not_mem_nil, fun _ => rfl⟩
  | case2 s events => exact ⟨fun _ => rfl, fun h => absurd List.mem_cons_self h⟩
  | case3 s ev events hne ih =>
    refine ⟨fun h => ih.1 ?_, fun h => ih.2 fun hmem => h (List.mem_cons_of_mem _ hmem)⟩
    rcases List.mem_cons.mp h with heq | hmem
    · exact absurd heq.symm hne
    · exact hmem

theorem answersTrue_iff (m : Machine) (session : Session) :
    AnswersTrue m session ↔ NotAfterCrash m session := by
  obtain ⟨hasked, hsilent⟩ := firstAnswer_eq session.env (session.start m) session.events
  unfold AnswersTrue NotAfterCrash Session.asks
  constructor
  · intro htrue hasks cnf hcrash
    have heq := (htrue systemrunning (hasked hasks)).2 cnf hcrash
    exact absurd heq (by decide)
  · intro hcond a ha
    by_cases hasks : .command .queryLastShutdownStatus ∈ session.events
    · rw [hasked hasks] at ha
      obtain rfl := Option.some.inj ha
      exact ⟨fun _ => rfl, fun cnf hcrash => absurd hcrash (hcond hasks cnf)⟩
    · rw [hsilent hasks] at ha
      exact absurd ha nofun

/-- In every history, from any file, all first answers are true exactly if no
session that asks follows a crash. -/
theorem answers_true_iff (cnf : Bytes) (history : List Session) :
    Along boot AnswersTrue ⟨cnf, none⟩ history ↔ Along boot NotAfterCrash ⟨cnf, none⟩ history :=
  along_congr (I := fun _ => True) (fun _ _ _ => trivial)
    (fun m _ session _ => answersTrue_iff m session) trivial

/-! ## A crash that is not reported -/

def quietSession (events : List Event) (h : ∀ ev ∈ events, ev ≠ .crash) (ending : Ending) :
    Session :=
  ⟨quietKernel, 0, events, h, ending⟩

/-- A session that crashes on an empty file, and one that asks. -/
def unreportedCrash : List Session :=
  [quietSession [] (fun _ h => absurd h List.not_mem_nil) (.crash []),
    quietSession [.command .queryLastShutdownStatus] (by simp) .notifier]

theorem crash_reported_as_normal :
    ¬Along boot AnswersTrue ⟨[], none⟩ unreportedCrash := by
  rintro ⟨-, htrue, -⟩
  have hanswer := (htrue systemrunning rfl).2 [] rfl
  exact absurd hanswer (by decide)

end RtBackup
