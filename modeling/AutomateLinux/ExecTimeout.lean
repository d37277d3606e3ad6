import AutomateLinux.ExecStream

/-!
# The time a remote command takes

A peer reads the output of a command through a pipe and stops after a number of
seconds, counted by a clock that knows whole seconds only.  Each turn of the loop
waits for the pipe with what is left of the time.  A command whose time is up is
killed; after the end of its output the loop waits for the command itself, without a
limit.  The daemon that asked waits for the answer longer than that.  The peer's daemon
is taken to be idle when the request arrives, so that the command starts at once.

Moments are in microseconds.  A turn has the moments at which it looks at the clock
and at which its wait and its read are over.
-/

namespace AutomateLinux

namespace ExecTimeout

open ExecStream
open DaemonServer (cString)

/-- What `select` and the read after it come to. -/
inductive Outcome
  | interrupted | failed | expired | closed
  | piece (bytes : List UInt8)
deriving DecidableEq

structure Turn where
  begins : ℕ
  ends : ℕ
  outcome : Outcome
deriving DecidableEq

/-- `time(nullptr)`. -/
def time (moment : ℕ) : ℕ := moment / 1000000

/-- `timeout_sec - elapsed`. -/
def remaining (timeout_sec start : ℕ) (turn : Turn) : Int :=
  timeout_sec - ((time turn.begins : Int) - time start)

/-- How the loop is left, and when. -/
structure LoopEnd where
  pieces : List (List UInt8)
  timedOut : Bool
  moment : ℕ
deriving DecidableEq

/-- `while (true)`; without further turns the loop still waits. -/
def readLoop (timeout_sec start : ℕ) : List Turn → Option LoopEnd
  | [] => none
  | turn :: turns =>
      if remaining timeout_sec start turn ≤ 0 then some ⟨[], true, turn.begins⟩
      else
        match turn.outcome with
        | .interrupted => readLoop timeout_sec start turns
        | .failed | .closed => some ⟨[], false, turn.ends⟩
        | .expired => some ⟨[], true, turn.ends⟩
        | .piece bytes =>
            (readLoop timeout_sec start turns).map fun e => { e with pieces := bytes :: e.pieces }

/-- A process as its parent sees it: the turns of the loop, how long it takes to go
once it is killed, when it exits by itself, and the status of that if there is one. -/
structure Child where
  start : ℕ
  turns : List Turn
  killed : ℕ
  exits : ℕ
  status : Option ℕ

inductive Call
  | kill | waitpid | close
deriving DecidableEq

structure Executed where
  exit_code : Int
  output : List UInt8
  calls : List Call
  returns : ℕ
deriving DecidableEq

/-- What is left to do after the loop. -/
def finish (timeout_sec : ℕ) (child : Child) (e : LoopEnd) : Executed :=
  if e.timedOut then
    { exit_code := 124
      output := e.pieces.flatMap cString ++
        utf8 ("\n[TIMEOUT after " ++ to_string timeout_sec ++ "s]")
      calls := [.kill, .waitpid, .close]
      returns := e.moment + child.killed }
  else
    { exit_code := (child.status.map Int.ofNat).getD 1
      output := e.pieces.flatMap cString
      calls := [.close, .waitpid]
      returns := max e.moment child.exits }

/-- The parent's part of `executeCommandWithTimeout`. -/
def executeCommandWithTimeout (timeout_sec : ℕ) (child : Child) : Option Executed :=
  (readLoop timeout_sec child.start child.turns).map (finish timeout_sec child)

/-- What the main loop writes for the result; a write of no bytes is no answer. -/
def Executed.answer (r : Executed) : Option (List UInt8) :=
  if r.output = [] then none else some r.output

/-! ## The loop in time -/

/-- `select` waits no longer than it is told, but for the lag of the machine, and as long
if it reports nothing. -/
def Turn.Waits (timeout_sec start lag : ℕ) (turn : Turn) : Prop :=
  0 < remaining timeout_sec start turn →
    turn.ends ≤ turn.begins + (remaining timeout_sec start turn).toNat * 1000000 + lag ∧
      (turn.outcome = .expired →
        turn.begins + (remaining timeout_sec start turn).toNat * 1000000 ≤ turn.ends)

/-- Each turn begins within the lag after the moment before it. -/
def Timed (timeout_sec start lag : ℕ) : ℕ → List Turn → Prop
  | _, [] => True
  | previous, turn :: turns =>
      previous ≤ turn.begins ∧ turn.begins ≤ previous + lag ∧ turn.begins ≤ turn.ends ∧
        turn.Waits timeout_sec start lag ∧ Timed timeout_sec start lag turn.ends turns

section

variable {timeout_sec start lag previous : ℕ} {turn : Turn} {turns : List Turn} {e : LoopEnd}

theorem ends_lt (hwaits : turn.Waits timeout_sec start lag)
    (hremaining : 0 < remaining timeout_sec start turn) :
    turn.ends < start + (timeout_sec + 1) * 1000000 + lag := by
  have hends := (hwaits hremaining).1
  unfold remaining time at *
  omega

theorem expired_gt (hwaits : turn.Waits timeout_sec start lag)
    (hremaining : 0 < remaining timeout_sec start turn) (hexpired : turn.outcome = .expired) :
    start + timeout_sec * 1000000 < turn.ends + 1000000 := by
  have hends := (hwaits hremaining).2 hexpired
  unfold remaining time at *
  omega

theorem begins_gt (hremaining : remaining timeout_sec start turn ≤ 0) :
    start + timeout_sec * 1000000 < turn.begins + 1000000 := by
  unfold remaining time at hremaining
  omega

/-- The loop is left less than a second after the time is up, but for the lag. -/
theorem moment_lt (htimed : Timed timeout_sec start lag previous turns)
    (hprevious : previous < start + (timeout_sec + 1) * 1000000 + lag)
    (hend : readLoop timeout_sec start turns = some e) :
    e.moment < start + (timeout_sec + 1) * 1000000 + 2 * lag := by
  induction turns generalizing previous e with
  | nil => simp [readLoop] at hend
  | cons turn turns ih =>
      obtain ⟨-, hlag, -, hwaits, hrest⟩ := htimed
      rw [readLoop] at hend
      split at hend
      · obtain rfl := Option.some.inj hend
        dsimp only
        omega
      · rename_i hremaining
        have hends := ends_lt hwaits (not_le.mp hremaining)
        split at hend
        · exact ih hrest hends hend
        · obtain rfl := Option.some.inj hend
          dsimp only
          omega
        · obtain rfl := Option.some.inj hend
          dsimp only
          omega
        · obtain rfl := Option.some.inj hend
          dsimp only
          omega
        · obtain ⟨later, hlater, rfl⟩ := Option.map_eq_some_iff.mp hend
          exact ih (e := later) hrest hends hlater

/-- The time is not up a second too early or more. -/
theorem moment_gt_of_timedOut (htimed : Timed timeout_sec start lag previous turns)
    (hend : readLoop timeout_sec start turns = some e) (hout : e.timedOut = true) :
    start + timeout_sec * 1000000 < e.moment + 1000000 := by
  induction turns generalizing previous e with
  | nil => simp [readLoop] at hend
  | cons turn turns ih =>
      obtain ⟨-, -, -, hwaits, hrest⟩ := htimed
      rw [readLoop] at hend
      split at hend
      · rename_i hremaining
        obtain rfl := Option.some.inj hend
        exact begins_gt hremaining
      · rename_i hremaining
        split at hend
        · exact ih hrest hend hout
        · obtain rfl := Option.some.inj hend
          simp at hout
        · obtain rfl := Option.some.inj hend
          simp at hout
        · rename_i hexpired
          obtain rfl := Option.some.inj hend
          exact expired_gt hwaits (not_le.mp hremaining) hexpired
        · obtain ⟨later, hlater, rfl⟩ := Option.map_eq_some_iff.mp hend
          exact ih (e := later) hrest hlater hout

/-- As long as the loop is not left, its time is not up. -/
theorem ends_lt_of_readLoop_eq_none (htimed : Timed timeout_sec start lag previous turns)
    (hwaiting : readLoop timeout_sec start turns = none) :
    ∀ turn ∈ turns, turn.ends < start + (timeout_sec + 1) * 1000000 + lag := by
  induction turns generalizing previous with
  | nil => simp
  | cons turn turns ih =>
      obtain ⟨-, -, -, hwaits, hrest⟩ := htimed
      rw [readLoop] at hwaiting
      split at hwaiting
      · simp at hwaiting
      · rename_i hremaining
        have hlater : readLoop timeout_sec start turns = none := by
          split at hwaiting
          · exact hwaiting
          · simp at hwaiting
          · simp at hwaiting
          · simp at hwaiting
          · simpa using hwaiting
        intro other hother
        rcases List.mem_cons.mp hother with rfl | hmem
        · exact ends_lt hwaits (not_le.mp hremaining)
        · exact ih hrest hlater other hmem

/-! ## The answer -/

/-- Every wait of the loop is as it should be, a killed process is gone within the lag,
and one whose output has ended exits within the linger. -/
structure Prompt (timeout_sec lag linger : ℕ) (child : Child) : Prop where
  timed : Timed timeout_sec child.start lag child.start child.turns
  killed : child.killed ≤ lag
  exits : ∀ e, readLoop timeout_sec child.start child.turns = some e → e.timedOut = false →
    child.exits ≤ e.moment + linger

variable {linger : ℕ} {child : Child} {r : Executed}

/-- The execution that the other end of the stream sees. -/
def LoopEnd.execution (e : LoopEnd) : Execution := .ran e.pieces e.timedOut

theorem output_finish (timeout_sec : ℕ) (child : Child) (e : LoopEnd) :
    (finish timeout_sec child e).output =
      ExecStream.executeCommandWithTimeout (to_string timeout_sec) e.execution := by
  unfold finish LoopEnd.execution ExecStream.executeCommandWithTimeout
  cases e.timedOut with
  | true => rfl
  | false => exact (List.append_nil _).symm

theorem readLoop_isSome (hprompt : Prompt timeout_sec lag linger child)
    (hlong : ∃ turn ∈ child.turns,
      child.start + (timeout_sec + 1) * 1000000 + lag ≤ turn.ends) :
    ∃ e, readLoop timeout_sec child.start child.turns = some e ∧
      e.moment < child.start + (timeout_sec + 1) * 1000000 + 2 * lag := by
  obtain ⟨turn, hmem, hends⟩ := hlong
  cases hend : readLoop timeout_sec child.start child.turns with
  | none =>
      exact absurd (ends_lt_of_readLoop_eq_none hprompt.timed hend turn hmem) (not_lt.mpr hends)
  | some e => exact ⟨e, rfl, moment_lt hprompt.timed (by omega) hend⟩

/-- A command whose time is up is killed, reaped and reported as timed out, within a
second of its time but for the lag. -/
theorem finish_of_timedOut (hprompt : Prompt timeout_sec lag linger child)
    (hend : readLoop timeout_sec child.start child.turns = some e) (hout : e.timedOut = true)
    (hmoment : e.moment < child.start + (timeout_sec + 1) * 1000000 + 2 * lag) :
    (finish timeout_sec child e).exit_code = 124 ∧
      (finish timeout_sec child e).calls = [.kill, .waitpid, .close] ∧
      child.start + timeout_sec * 1000000 < (finish timeout_sec child e).returns + 1000000 ∧
      (finish timeout_sec child e).returns <
        child.start + (timeout_sec + 1) * 1000000 + 3 * lag := by
  have hlate := moment_gt_of_timedOut hprompt.timed hend hout
  have hkilled := hprompt.killed
  rw [finish, if_pos hout]
  refine ⟨rfl, rfl, ?_, ?_⟩ <;> dsimp only <;> omega

/-- A command whose output has ended is reaped and its own exit code reported, once it
has exited. -/
theorem finish_of_ended (hprompt : Prompt timeout_sec lag linger child)
    (hend : readLoop timeout_sec child.start child.turns = some e) (hout : e.timedOut = false)
    (hmoment : e.moment < child.start + (timeout_sec + 1) * 1000000 + 2 * lag) :
    (finish timeout_sec child e).exit_code = (child.status.map Int.ofNat).getD 1 ∧
      (finish timeout_sec child e).calls = [.close, .waitpid] ∧
      child.exits ≤ (finish timeout_sec child e).returns ∧
      (finish timeout_sec child e).returns <
        child.start + (timeout_sec + 1) * 1000000 + 2 * lag + linger := by
  have hexits := hprompt.exits e hend hout
  rw [finish, if_neg (by simp [hout])]
  refine ⟨rfl, rfl, le_max_right _ _, ?_⟩
  dsimp only
  omega

/-- A command has printed something when its output has ended. -/
def Prints (timeout_sec : ℕ) (child : Child) : Prop :=
  ∀ e, readLoop timeout_sec child.start child.turns = some e → e.timedOut = false →
    ∃ piece ∈ e.pieces, cString piece ≠ []

/-- The notice of a timeout is an answer by itself. -/
theorem output_ne_nil (hprints : Prints 60 child)
    (hend : readLoop 60 child.start child.turns = some e) : (finish 60 child e).output ≠ [] := by
  unfold finish
  cases hout : e.timedOut with
  | true =>
      intro hempty
      have hnotice := (List.append_eq_nil_iff.mp hempty).2
      revert hnotice
      decide +kernel
  | false =>
      obtain ⟨piece, hpiece, hne⟩ := hprints e hend hout
      intro hempty
      exact hne (List.flatMap_eq_nil_iff.mp hempty piece hpiece)

/-- The answer to a command that prints something, or whose time is up, is there before the
daemon that asked stops waiting, after two minutes, if what the links, the machine and the
command itself take beyond the time that is allowed stays within 59 seconds. -/
theorem answered_in_time {sent delay : ℕ} (hprompt : Prompt 60 lag linger child)
    (hlong : ∃ turn ∈ child.turns, child.start + (60 + 1) * 1000000 + lag ≤ turn.ends)
    (hprints : Prints 60 child) (hreceived : child.start ≤ sent + delay)
    (hbudget : 2 * delay + 3 * lag + linger ≤ 59000000) :
    ∃ r answer, executeCommandWithTimeout 60 child = some r ∧ r.answer = some answer ∧
      r.returns + delay < sent + 120000000 := by
  obtain ⟨e, hend, hmoment⟩ := readLoop_isSome hprompt hlong
  have hreturns : (finish 60 child e).returns <
      child.start + (60 + 1) * 1000000 + 3 * lag + linger := by
    cases hout : e.timedOut with
    | true =>
        obtain ⟨-, -, -, hlt⟩ := finish_of_timedOut hprompt hend hout hmoment
        omega
    | false =>
        obtain ⟨-, -, -, hlt⟩ := finish_of_ended hprompt hend hout hmoment
        omega
  refine ⟨finish 60 child e, (finish 60 child e).output, ?_, ?_, by omega⟩
  · rw [executeCommandWithTimeout, hend, Option.map_some]
  · rw [Executed.answer, if_neg (output_ne_nil hprints hend)]

end

/-- A command that writes nothing, watched until its time is up. -/
def silent : Child where
  start := 0
  turns := [⟨0, 60000000, .expired⟩, ⟨60000000, 62000000, .interrupted⟩]
  killed := 0
  exits := 0
  status := none

theorem silent_prompt : Prompt 60 10000 0 silent where
  timed := by
    refine ⟨le_refl _, Nat.zero_le _, by decide +kernel, fun _ => ⟨by decide +kernel, fun _ =>
      by decide +kernel⟩, le_refl _, by decide +kernel, by decide +kernel, fun hremaining => ?_,
      trivial⟩
    exact absurd hremaining (by decide +kernel)
  killed := by decide
  exits := by
    intro e hend hout
    obtain rfl : e = ⟨[], true, 60000000⟩ := by
      have hloop : readLoop 60 silent.start silent.turns = some ⟨[], true, 60000000⟩ := by
        decide +kernel
      exact Option.some.inj (hend.symm.trans hloop)
    simp at hout

theorem silent_long : ∃ turn ∈ silent.turns,
    silent.start + (60 + 1) * 1000000 + 10000 ≤ turn.ends :=
  ⟨⟨60000000, 62000000, .interrupted⟩, by decide +kernel, by decide +kernel⟩

/-- A command that prints a line and exits; after its output has ended nothing more is
read. -/
def printing : Child where
  start := 200000
  turns := [⟨200000, 700000, .piece (utf8 "ok\n")⟩, ⟨700000, 900000, .closed⟩,
    ⟨900000, 60900000, .interrupted⟩, ⟨60900000, 62000000, .interrupted⟩]
  killed := 0
  exits := 950000
  status := some 0

theorem readLoop_printing :
    readLoop 60 printing.start printing.turns = some ⟨[utf8 "ok\n"], false, 900000⟩ := by
  decide +kernel

theorem printing_prompt : Prompt 60 10000 50000 printing where
  timed := by
    refine ⟨by decide, by decide, by decide, fun _ => ⟨by decide +kernel, fun h => by simp at h⟩,
      by decide, by decide, by decide, fun _ => ⟨by decide +kernel, fun h => by simp at h⟩,
      by decide, by decide, by decide, fun _ => ⟨by decide +kernel, fun h => by simp at h⟩,
      by decide, by decide, by decide, fun hremaining => ?_, trivial⟩
    exact absurd hremaining (by decide +kernel)
  killed := by decide
  exits := by
    intro e hend _
    obtain rfl := Option.some.inj (hend.symm.trans readLoop_printing)
    decide

theorem printing_answered : ∃ r answer, executeCommandWithTimeout 60 printing = some r ∧
    r.answer = some answer ∧ r.returns + 200000 < 0 + 120000000 := by
  refine answered_in_time printing_prompt ⟨⟨60900000, 62000000, .interrupted⟩,
    by decide +kernel, by decide +kernel⟩ (fun e hend _ => ?_) (by decide) (by decide)
  obtain rfl := Option.some.inj (hend.symm.trans readLoop_printing)
  exact ⟨_, List.mem_singleton_self _, by decide +kernel⟩

end ExecTimeout

end AutomateLinux
