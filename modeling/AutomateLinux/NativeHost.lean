import AutomateLinux.TransitionSystem
import Mathlib.Tactic.Common

/-!
# The native host's link to the daemon

The browser's native host runs two threads over one socket field and one lock
that is not reentrant.  The main thread sends what it reads from the browser; it
takes the lock and, if the socket is gone, calls the function that connects, which
takes the lock itself.  The listener connects under the lock but drops the socket
without it.
-/

namespace AutomateLinux

namespace NativeHost

open TransitionSystem

inductive HostThread
  | stdin | listener
deriving DecidableEq

/-- Where the main thread is: reading from the browser, at the `with self.lock` of
`send`, behind it, at the `with self.lock` of the `connect` that `send` calls, behind
that one, or about to write. -/
inductive StdinAt
  | reading | sendLock | sendCheck | connectLock | connecting | sendAll | exited
deriving DecidableEq

/-- Where the listener is: at the head of its loop, at the `with self.lock` of
`connect`, behind it, or in `recv`. -/
inductive ListenerAt
  | top | connectLock | connecting | receiving | exited
deriving DecidableEq

structure DaemonLink where
  sock : Bool := false
  running : Bool := true
  lock : Option HostThread := none
  stdin : StdinAt := .reading
  listener : ListenerAt := .top
deriving DecidableEq

/-- What a call of `recv` and the decoding of its result come to. -/
inductive Received
  | data | eof | error
deriving DecidableEq

inductive Label
  | message
  | chromeGone
  | acquire (thread : HostThread)
  | check
  | connect (thread : HostThread) (succeeds : Bool)
  | sendAll (succeeds : Bool)
  | look
  | receive (received : Received)
deriving DecidableEq

/-- A thread that is at a `with self.lock` goes on once nobody holds the lock. -/
def acquire (s : DaemonLink) : HostThread → Option DaemonLink
  | .stdin =>
      match s.lock, s.stdin with
      | none, .sendLock => some { s with lock := some .stdin, stdin := .sendCheck }
      | none, .connectLock => some { s with lock := some .stdin, stdin := .connecting }
      | _, _ => none
  | .listener =>
      match s.lock, s.listener with
      | none, .connectLock => some { s with lock := some .listener, listener := .connecting }
      | _, _ => none

/-- The body of `connect`; leaving it releases the lock. -/
def connect (s : DaemonLink) (succeeds : Bool) : HostThread → Option DaemonLink
  | .stdin =>
      if s.stdin = .connecting then
        some
          { s with
            sock := succeeds
            lock := none
            stdin := if succeeds then .sendAll else .reading }
      else none
  | .listener =>
      if s.listener = .connecting then
        some { s with sock := succeeds, lock := none, listener := .top }
      else none

def step (s : DaemonLink) : Label → Option DaemonLink
  | .message => if s.stdin = .reading then some { s with stdin := .sendLock } else none
  | .chromeGone =>
      if s.stdin = .reading then some { s with stdin := .exited, running := false } else none
  | .acquire thread => acquire s thread
  | .check =>
      if s.stdin = .sendCheck then
        some { s with stdin := if s.sock then .sendAll else .connectLock }
      else none
  | .connect thread succeeds => connect s succeeds thread
  | .sendAll succeeds =>
      -- without a socket the call raises, like a write that fails
      if s.stdin = .sendAll then
        some { s with sock := s.sock && succeeds, lock := none, stdin := .reading }
      else none
  | .look =>
      if s.listener = .top then
        some
          { s with
            listener :=
              if s.running = false then .exited
              else if s.sock then .receiving
              else .connectLock }
      else none
  | .receive received =>
      if s.listener = .receiving then
        some { s with sock := s.sock && decide (received = .data), listener := .top }
      else none

/-! ## The lock -/

/-- The thread waits for the lock. -/
def Requests (s : DaemonLink) : HostThread → Prop
  | .stdin => s.stdin = .sendLock ∨ s.stdin = .connectLock
  | .listener => s.listener = .connectLock

def Returned (s : DaemonLink) : Prop := s.stdin = .reading ∨ s.stdin = .exited

/-- Some run lets the main thread out of the call it is in. -/
def CanReturn (s : DaemonLink) : Prop := ∃ after, Reachable step s after ∧ Returned after

/-- No thread requests the lock it holds, and the call in progress can return. -/
structure DeadlockFree (s : DaemonLink) : Prop where
  noSelfRequest : ∀ thread, Requests s thread → s.lock ≠ some thread
  canReturn : CanReturn s

/-- There is a socket when `send` takes the lock, and the listener does not drop it
before `send` has looked. -/
def FindsSocket (s : DaemonLink) : Label → Prop
  | .acquire .stdin => s.sock = true
  | .receive received => s.stdin = .sendCheck → received = .data
  | _ => True

/-- The holder of the lock is where it should be, and `send` looks at a socket. -/
structure LockInvariant (s : DaemonLink) : Prop where
  stdin : s.lock = some .stdin ↔ s.stdin = .sendCheck ∨ s.stdin = .sendAll
  listener : s.lock = some .listener ↔ s.listener = .connecting
  notNested : s.stdin ≠ .connectLock ∧ s.stdin ≠ .connecting
  socket : s.stdin = .sendCheck → s.sock = true
  alive : s.stdin ≠ .exited → s.running = true ∧ s.listener ≠ .exited

theorem lockInvariant_initial : LockInvariant {} := by
  constructor <;> simp

theorem LockInvariant.step {s after : DaemonLink} {label : Label} (hinv : LockInvariant s)
    (hfinds : FindsSocket s label) (hstep : NativeHost.step s label = some after) :
    LockInvariant after := by
  obtain ⟨hstdin, hlistener, hnested, hsocket, halive⟩ := hinv
  cases label with
  | message | chromeGone | check | sendAll | look =>
      simp only [NativeHost.step] at hstep
      split at hstep
      · obtain rfl := Option.some.inj hstep
        constructor <;> grind
      · simp at hstep
  | receive received =>
      simp only [NativeHost.step, FindsSocket] at hstep hfinds
      split at hstep
      · obtain rfl := Option.some.inj hstep
        constructor <;> grind
      · simp at hstep
  | acquire thread =>
      cases thread with
      | stdin =>
          simp only [NativeHost.step, acquire, FindsSocket] at hstep hfinds
          split at hstep
          · obtain rfl := Option.some.inj hstep
            constructor <;> grind
          · exact absurd ‹s.stdin = .connectLock› hnested.1
          · simp at hstep
      | listener =>
          simp only [NativeHost.step, acquire] at hstep
          split at hstep
          · obtain rfl := Option.some.inj hstep
            constructor <;> grind
          · simp at hstep
  | connect thread succeeds =>
      cases thread with
      | stdin =>
          simp only [NativeHost.step, connect] at hstep
          rw [if_neg hnested.2] at hstep
          simp at hstep
      | listener =>
          simp only [NativeHost.step, connect] at hstep
          split at hstep
          · obtain rfl := Option.some.inj hstep
            constructor <;> grind
          · simp at hstep

/-! ## A call that can return -/

theorem CanReturn.of_step {s after : DaemonLink} {label : Label}
    (hstep : step s label = some after) (hafter : CanReturn after) : CanReturn s := by
  obtain ⟨final, hreach, hreturned⟩ := hafter
  exact ⟨final, Relation.ReflTransGen.head ⟨label, trivial, hstep⟩ hreach, hreturned⟩

theorem canReturn_of_sendAll {s : DaemonLink} (hstdin : s.stdin = .sendAll) : CanReturn s := by
  have hstep : step s (.sendAll true) = some
      { s with sock := s.sock && true, lock := none, stdin := .reading } := if_pos hstdin
  exact CanReturn.of_step hstep ⟨_, Relation.ReflTransGen.refl, Or.inl rfl⟩

theorem canReturn_of_sendCheck {s : DaemonLink} (hstdin : s.stdin = .sendCheck)
    (hsocket : s.sock = true) : CanReturn s := by
  have hstep : step s .check = some { s with stdin := .sendAll } := by
    simp [step, hstdin, hsocket]
  exact CanReturn.of_step hstep (canReturn_of_sendAll rfl)

theorem canReturn_of_sendLock {s : DaemonLink} (hstdin : s.stdin = .sendLock)
    (hlock : s.lock = none) (hsocket : s.sock = true) : CanReturn s := by
  have hstep : step s (.acquire .stdin) =
      some { s with lock := some .stdin, stdin := .sendCheck } := by
    simp [step, acquire, hstdin, hlock]
  exact CanReturn.of_step hstep (canReturn_of_sendCheck rfl hsocket)

theorem canReturn_of_connecting {s : DaemonLink} (hstdin : s.stdin = .sendLock)
    (hlistener : s.listener = .connecting) : CanReturn s := by
  have hstep : step s (.connect .listener true) =
      some { s with sock := true, lock := none, listener := .top } := if_pos hlistener
  exact CanReturn.of_step hstep (canReturn_of_sendLock hstdin rfl rfl)

theorem canReturn_of_connectLock {s : DaemonLink} (hstdin : s.stdin = .sendLock)
    (hlock : s.lock = none) (hlistener : s.listener = .connectLock) : CanReturn s := by
  have hstep : step s (.acquire .listener) =
      some { s with lock := some .listener, listener := .connecting } := by
    simp [step, acquire, hlistener, hlock]
  exact CanReturn.of_step hstep (canReturn_of_connecting hstdin rfl)

theorem canReturn_of_top {s : DaemonLink} (hstdin : s.stdin = .sendLock)
    (hlock : s.lock = none) (hrunning : s.running = true) (hlistener : s.listener = .top) :
    CanReturn s := by
  by_cases hsocket : s.sock = true
  · exact canReturn_of_sendLock hstdin hlock hsocket
  · have hstep : step s .look = some { s with listener := .connectLock } := by
      simp [step, hlistener, hrunning, hsocket]
    exact CanReturn.of_step hstep (canReturn_of_connectLock hstdin hlock rfl)

theorem LockInvariant.canReturn {s : DaemonLink} (hinv : LockInvariant s) : CanReturn s := by
  obtain ⟨hholds, hconnecting, hnested, hsocket, halive⟩ := hinv
  cases hstdin : s.stdin with
  | reading => exact ⟨s, Relation.ReflTransGen.refl, Or.inl hstdin⟩
  | exited => exact ⟨s, Relation.ReflTransGen.refl, Or.inr hstdin⟩
  | sendAll => exact canReturn_of_sendAll hstdin
  | sendCheck => exact canReturn_of_sendCheck hstdin (hsocket hstdin)
  | connectLock => exact absurd hstdin hnested.1
  | connecting => exact absurd hstdin hnested.2
  | sendLock =>
      obtain ⟨hrunning, hnotExited⟩ := halive (by simp [hstdin])
      have hlock : s.listener ≠ .connecting → s.lock = none := by
        intro hlistener
        rcases hholder : s.lock with _ | thread
        · rfl
        · cases thread <;> simp_all
      cases hlistener : s.listener with
      | top => exact canReturn_of_top hstdin (hlock (by simp [hlistener])) hrunning hlistener
      | connectLock =>
          exact canReturn_of_connectLock hstdin (hlock (by simp [hlistener])) hlistener
      | connecting => exact canReturn_of_connecting hstdin hlistener
      | receiving =>
          have hstep : NativeHost.step s (.receive .data) =
              some { s with sock := s.sock && true, listener := .top } := if_pos hlistener
          exact CanReturn.of_step hstep
            (canReturn_of_top hstdin (hlock (by simp [hlistener])) hrunning rfl)
      | exited => exact absurd hlistener hnotExited

theorem LockInvariant.deadlockFree {s : DaemonLink} (hinv : LockInvariant s) :
    DeadlockFree s := by
  refine ⟨?_, hinv.canReturn⟩
  intro thread hrequests hholds
  cases thread with
  | stdin =>
      rcases hrequests with hsend | hconnect
      · rcases hinv.stdin.mp hholds with h | h <;> simp [hsend] at h
      · exact hinv.notNested.1 hconnect
  | listener =>
      have hconnecting := hinv.listener.mp hholds
      have hlock : s.listener = .connectLock := hrequests
      simp [hlock] at hconnecting

/-! ## A call that cannot -/

/-- The main thread holds the lock and has found no socket, or is about to. -/
structure Doomed (s : DaemonLink) : Prop where
  holds : s.lock = some .stdin
  nested : s.stdin = .connectLock ∨ s.stdin = .sendCheck ∧ s.sock = false
  listener : s.listener ≠ .connecting

theorem Doomed.step {s after : DaemonLink} {label : Label} (hdoomed : Doomed s)
    (hstep : NativeHost.step s label = some after) : Doomed after := by
  obtain ⟨hholds, hnested, hlistener⟩ := hdoomed
  cases label with
  | message | chromeGone | check | sendAll | look | receive =>
      simp only [NativeHost.step] at hstep
      split at hstep
      · obtain rfl := Option.some.inj hstep
        constructor <;> grind
      · simp at hstep
  | acquire thread => cases thread <;> simp [NativeHost.step, acquire, hholds] at hstep
  | connect thread succeeds =>
      cases thread with
      | stdin =>
          simp only [NativeHost.step, connect] at hstep
          rw [if_neg (by grind)] at hstep
          simp at hstep
      | listener =>
          simp only [NativeHost.step, connect] at hstep
          rw [if_neg hlistener] at hstep
          simp at hstep

theorem Doomed.not_canReturn {s : DaemonLink} (hdoomed : Doomed s) : ¬ CanReturn s := by
  rintro ⟨after, hreach, hreturned⟩
  have hafter : Doomed after := hreach.invariant (fun hinv hstep => hinv.step hstep) hdoomed
  rcases hafter.nested with h | ⟨h, -⟩ <;> rcases hreturned with h' | h' <;> simp [h] at h'

/-- Taking the lock without a socket, or losing the socket right after, is fatal. -/
theorem LockInvariant.doomed {s after : DaemonLink} {label : Label} (hinv : LockInvariant s)
    (hfinds : ¬ FindsSocket s label) (hstep : NativeHost.step s label = some after) :
    Doomed after := by
  obtain ⟨hholds, hconnecting, hnested, hsocket, -⟩ := hinv
  cases label with
  | message | chromeGone | check | sendAll | look | connect => exact absurd trivial hfinds
  | acquire thread =>
      cases thread with
      | listener => exact absurd trivial hfinds
      | stdin =>
          have hsock : s.sock = false := by simpa [FindsSocket] using hfinds
          simp only [NativeHost.step, acquire] at hstep
          split at hstep
          · obtain rfl := Option.some.inj hstep
            constructor <;> grind
          · exact absurd ‹s.stdin = .connectLock› hnested.1
          · simp at hstep
  | receive received =>
      obtain ⟨hcheck, hlost⟩ : s.stdin = .sendCheck ∧ received ≠ .data := by
        simpa [FindsSocket] using hfinds
      simp only [NativeHost.step] at hstep
      split at hstep
      · obtain rfl := Option.some.inj hstep
        constructor <;> grind
      · simp at hstep

/-- Along a run the link is free of deadlock exactly if there is a socket whenever
`send` has taken the lock, until it has looked. -/
theorem deadlockFree_iff_findsSocket (labels : List Label) :
    AllStates step DeadlockFree {} labels ↔ AllSteps step FindsSocket {} labels :=
  allStates_iff_allSteps (fun hinv => LockInvariant.deadlockFree hinv)
    (fun hinv hfinds hstep => hinv.step hfinds hstep)
    (fun hinv hfinds hstep hfree => (hinv.doomed hfinds hstep).not_canReturn hfree.canReturn)
    lockInvariant_initial labels

/-- The daemon is restarted, and a message is sent before the listener has connected
again. -/
def restartedDaemon : List Label :=
  [.look, .acquire .listener, .connect .listener true, .look, .receive .eof, .message,
    .acquire .stdin, .check]

theorem restartedDaemon_deadlock :
    ¬ AllStates step DeadlockFree {} restartedDaemon ∧
      ∃ s, execute step {} restartedDaemon = some s ∧ Requests s .stdin ∧
        s.lock = some .stdin ∧ ¬ CanReturn s := by
  have hdoomed : Doomed
      { sock := false, running := true, lock := some .stdin, stdin := .connectLock,
        listener := .top } := ⟨rfl, Or.inl rfl, by simp⟩
  have hrun : execute step {} restartedDaemon = some
      { sock := false, running := true, lock := some .stdin, stdin := .connectLock,
        listener := .top } := rfl
  refine ⟨?_, _, hrun, Or.inr rfl, rfl, hdoomed.not_canReturn⟩
  intro hall
  exact hdoomed.not_canReturn (hall.last hrun).canReturn

end NativeHost

end AutomateLinux
