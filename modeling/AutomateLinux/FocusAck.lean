import AutomateLinux.InputMapper
import AutomateLinux.TransitionSystem

/-!
# Waiting for the browser's answer

Before the ChatGPT macro pastes, it asks the extension to focus the text box and
leaves a detached thread to wait for the answer.  All threads wait on one
condition variable for one flag, which every trigger clears and every answer
sets.  An answer notifies without the mutex, so that a thread which has just
found the flag clear may sleep through it and see it at its deadline only.
Times are in milliseconds.
-/

namespace AutomateLinux

namespace FocusAck

/-! ## Threads -/

/-- How a wait ended: what it returned, its deadline, how many marks had been made
and when. -/
structure Decision where
  received : Bool
  deadline : ℕ
  seen : ℕ
  time : ℕ
deriving DecidableEq

/-- Where a detached thread is.  It may be about to evaluate the predicate, about
to block after it was false, blocked, or back from a wait that timed out; then it
sleeps, writes the key sequence and writes the report. -/
inductive Phase
  | starting
  | checking (deadline : ℕ)
  | blocking (deadline : ℕ)
  | waiting (deadline : ℕ)
  | expired (deadline : ℕ)
  | sleeping (decision : Decision)
  | pasted (decision : Decision)
  | done (decision : Decision)
deriving DecidableEq

def Phase.decision? : Phase → Option Decision
  | .sleeping decision | .pasted decision | .done decision => some decision
  | _ => none

/-- A thread with the time of its trigger and the position of the trigger's
mark. -/
structure FocusThread where
  triggeredAt : ℕ
  mark : ℕ
  phase : Phase
deriving DecidableEq

/-- A focus request, of the trigger that starts a thread or of a `focusChatGPT`
command. -/
inductive Request
  | thread (i : ℕ)
  | command (n : ℕ)
deriving DecidableEq

/-- What happened to the flag: the thread a trigger starts and whether a request
went out for it, and the request an answer is for. -/
inductive Mark
  | trigger (thread : ℕ) (sent : Bool)
  | ack (request : Option Request)
deriving DecidableEq

def Mark.isAck : Mark → Bool
  | .trigger _ _ => false
  | .ack _ => true

/-- One critical section of the virtual device. -/
structure Write where
  time : ℕ
  thread : Option ℕ
  events : List InputEvent
deriving DecidableEq

/-- `marks`, `outstanding` (the requests without an answer), `commands` (how many
`focusChatGPT` commands there were) and the times and threads of the writes are kept for
the statements. -/
structure State where
  now : ℕ := 0
  focusAckReceived_ : Bool := false
  threads : List FocusThread := []
  marks : List Mark := []
  outstanding : List Request := []
  commands : ℕ := 0
  device : List Write := []
deriving DecidableEq

inductive Move
  | begin | check | block | wake | timeout | expire | paste | finish
deriving DecidableEq

/-- `triggerChromeChatGPTMacro` and `handleFocusChatGPT` with the outcome of their
requests, `onFocusAck`, the notification after it, one move of a thread, a write by
another thread and the passing of time. -/
inductive Label
  | trigger (sent : Bool)
  | focusChatGPT (sent : Bool)
  | ack (request : Option Request)
  | notify
  | thread (i : ℕ) (move : Move)
  | write (events : List InputEvent)
  | tick (elapsed : ℕ)
deriving DecidableEq

def ACK_TIMEOUT : ℕ := 400

def SAFETY_DELAY : ℕ := 50

def pasteEvents : List InputEvent :=
  InputMapper.pasteSequence.flatMap fun p => [⟨EV_KEY, p.1, p.2⟩, synReport]

/-- The end of a wait with the flag as it is now. -/
def State.decide (s : State) (deadline : ℕ) : Decision :=
  ⟨s.focusAckReceived_, deadline, s.marks.length, s.now⟩

def Phase.next (s : State) : Move → Phase → Option Phase
  | .begin, .starting => some (.checking (s.now + ACK_TIMEOUT))
  | .check, .checking deadline =>
      some (if s.focusAckReceived_ then .sleeping (s.decide deadline) else .blocking deadline)
  | .block, .blocking deadline => some (.waiting deadline)
  | .wake, .waiting deadline => some (.checking deadline)
  | .timeout, .waiting deadline => if deadline ≤ s.now then some (.expired deadline) else none
  | .expire, .expired deadline => some (.sleeping (s.decide deadline))
  | .paste, .sleeping decision =>
      if decision.time + SAFETY_DELAY ≤ s.now then some (.pasted decision) else none
  | .finish, .pasted decision => some (.done decision)
  | _, _ => none

/-- A notification wakes the threads that are blocked now. -/
def Phase.notified : Phase → Phase
  | .waiting deadline => .checking deadline
  | phase => phase

/-- What a move writes to the virtual device. -/
def Move.writes : Move → List InputEvent
  | .paste => pasteEvents
  | .finish => [synReport]
  | _ => []

def State.setPhase (s : State) (i : ℕ) (t : FocusThread) (phase : Phase) : State :=
  { s with threads := s.threads.set i { t with phase } }

def State.write (s : State) (thread : Option ℕ) (events : List InputEvent) : State :=
  if events = [] then s else { s with device := s.device ++ [⟨s.now, thread, events⟩] }

def step (s : State) : Label → Option State
  | .trigger sent =>
      some
        { s with
          focusAckReceived_ := false
          threads := s.threads ++ [⟨s.now, s.marks.length, .starting⟩]
          marks := s.marks ++ [.trigger s.threads.length sent]
          outstanding :=
            if sent then s.outstanding ++ [.thread s.threads.length] else s.outstanding }
  | .focusChatGPT sent =>
      some
        { s with
          commands := s.commands + 1
          outstanding := if sent then s.outstanding ++ [.command s.commands] else s.outstanding }
  | .ack request =>
      if ∀ k ∈ request, k ∈ s.outstanding then
        some
          { s with
            focusAckReceived_ := true
            marks := s.marks ++ [.ack request]
            outstanding :=
              match request with
              | some k => s.outstanding.erase k
              | none => s.outstanding }
      else none
  | .notify =>
      some { s with threads := s.threads.map fun t => { t with phase := t.phase.notified } }
  | .thread i move => do
      let t ← s.threads[i]?
      let phase ← t.phase.next s move
      return (s.setPhase i t phase).write (if move = .paste then some i else none) move.writes
  | .write events => some (s.write none events)
  | .tick elapsed => some { s with now := s.now + elapsed }

/-! ## The flag -/

/-- Whether the latest mark is an answer. -/
def answered (marks : List Mark) : Bool := marks.getLast?.any Mark.isAck

@[simp] theorem answered_append (marks : List Mark) (mark : Mark) :
    answered (marks ++ [mark]) = mark.isAck := by
  simp [answered]

/-! ## What a thread has found out -/

/-- A wait that ended saw the marks up to some point: it returned whether the last
of them was an answer, and `false` at its deadline only. -/
structure DecisionOk (s : State) (triggeredAt mark : ℕ) (d : Decision) : Prop where
  deadline : triggeredAt + ACK_TIMEOUT ≤ d.deadline
  later : mark < d.seen
  seen : d.seen ≤ s.marks.length
  triggered : triggeredAt ≤ d.time
  time : d.time ≤ s.now
  received : d.received = answered (s.marks.take d.seen)
  waited : d.received = false → d.deadline ≤ d.time

def PhaseOk (s : State) (triggeredAt mark : ℕ) : Phase → Prop
  | .starting => True
  | .checking deadline | .blocking deadline | .waiting deadline =>
      triggeredAt + ACK_TIMEOUT ≤ deadline
  | .expired deadline => triggeredAt + ACK_TIMEOUT ≤ deadline ∧ deadline ≤ s.now
  | .sleeping d | .pasted d | .done d => DecisionOk s triggeredAt mark d

structure ThreadOk (s : State) (i : ℕ) (t : FocusThread) : Prop where
  triggered : t.triggeredAt ≤ s.now
  mark : ∃ sent, s.marks[t.mark]? = some (.trigger i sent)
  phase : PhaseOk s t.triggeredAt t.mark t.phase

/-- Time and marks only grow. -/
def Later (s s' : State) : Prop := s.now ≤ s'.now ∧ s.marks <+: s'.marks

theorem DecisionOk.later_state {s s' : State} {triggeredAt mark : ℕ} {d : Decision}
    (hok : DecisionOk s triggeredAt mark d) (hlater : Later s s') :
    DecisionOk s' triggeredAt mark d where
  deadline := hok.deadline
  later := hok.later
  seen := hok.seen.trans hlater.2.length_le
  triggered := hok.triggered
  time := hok.time.trans hlater.1
  received := by
    obtain ⟨more, hmarks⟩ := hlater.2
    rw [← hmarks, List.take_append_of_le_length hok.seen]
    exact hok.received
  waited := hok.waited

theorem PhaseOk.later_state {s s' : State} {triggeredAt mark : ℕ} {phase : Phase}
    (hok : PhaseOk s triggeredAt mark phase) (hlater : Later s s') :
    PhaseOk s' triggeredAt mark phase := by
  cases phase with
  | starting => trivial
  | checking _ => exact hok
  | blocking _ => exact hok
  | waiting _ => exact hok
  | expired _ => exact ⟨hok.1, hok.2.trans hlater.1⟩
  | sleeping _ => exact DecisionOk.later_state hok hlater
  | pasted _ => exact DecisionOk.later_state hok hlater
  | done _ => exact DecisionOk.later_state hok hlater

theorem ThreadOk.later_state {s s' : State} {i : ℕ} {t : FocusThread}
    (hok : ThreadOk s i t) (hlater : Later s s') : ThreadOk s' i t where
  triggered := hok.triggered.trans hlater.1
  mark := by
    obtain ⟨sent, hsent⟩ := hok.mark
    obtain ⟨more, hmarks⟩ := hlater.2
    have hlength := (List.getElem?_eq_some_iff.mp hsent).1
    exact ⟨sent, by rw [← hmarks, List.getElem?_append_left hlength, hsent]⟩
  phase := hok.phase.later_state hlater

theorem PhaseOk.notified {s : State} {triggeredAt mark : ℕ} {phase : Phase}
    (hok : PhaseOk s triggeredAt mark phase) : PhaseOk s triggeredAt mark phase.notified := by
  cases phase <;> exact hok

theorem lt_length_of_mark {s : State} {i : ℕ} {t : FocusThread} (hok : ThreadOk s i t) :
    t.mark < s.marks.length := by
  obtain ⟨sent, hsent⟩ := hok.mark
  exact (List.getElem?_eq_some_iff.mp hsent).1

/-- Ending a wait now. -/
theorem decisionOk_decide {s : State} {i : ℕ} {t : FocusThread} {deadline : ℕ}
    (hflag : s.focusAckReceived_ = answered s.marks) (hok : ThreadOk s i t)
    (hdeadline : t.triggeredAt + ACK_TIMEOUT ≤ deadline)
    (hwaited : s.focusAckReceived_ = false → deadline ≤ s.now) :
    DecisionOk s t.triggeredAt t.mark (s.decide deadline) where
  deadline := hdeadline
  later := lt_length_of_mark hok
  seen := le_rfl
  triggered := hok.triggered
  time := le_rfl
  received := by
    rw [show (s.decide deadline).seen = s.marks.length from rfl, List.take_length]
    exact hflag
  waited := hwaited

theorem phaseOk_next {s : State} {i : ℕ} {t : FocusThread} {move : Move} {phase : Phase}
    (hflag : s.focusAckReceived_ = answered s.marks) (hok : ThreadOk s i t)
    (hnext : t.phase.next s move = some phase) : PhaseOk s t.triggeredAt t.mark phase := by
  have hphase := hok.phase
  cases move <;> cases hfrom : t.phase <;> rw [hfrom] at hnext hphase <;>
    simp only [Phase.next, reduceCtorEq, Option.some.injEq] at hnext
  case begin.starting =>
      subst hnext
      exact Nat.add_le_add_right hok.triggered _
  case check.checking deadline =>
      subst hnext
      split
      · next hreceived =>
          exact decisionOk_decide hflag hok hphase fun hnot => by simp [hreceived] at hnot
      · exact hphase
  case block.blocking => exact hnext ▸ hphase
  case wake.waiting => exact hnext ▸ hphase
  case timeout.waiting deadline =>
      split at hnext
      · next hexpired =>
          obtain rfl := Option.some.inj hnext
          exact ⟨hphase, hexpired⟩
      · cases hnext
  case expire.expired deadline =>
      subst hnext
      exact decisionOk_decide hflag hok hphase.1 fun _ => hphase.2
  case paste.sleeping =>
      split at hnext
      · obtain rfl := Option.some.inj hnext
        exact hphase
      · cases hnext
  case finish.pasted => exact hnext ▸ hphase

/-! ## What has been written -/

/-- The decision of a thread that has pasted. -/
def Phase.pastedAfter? : Phase → Option Decision
  | .pasted decision | .done decision => some decision
  | _ => none

def State.pastedAfter? (s : State) (i : ℕ) : Option Decision :=
  s.threads[i]?.bind fun t => t.phase.pastedAfter?

def State.pastesOf (s : State) (i : ℕ) : List Write :=
  s.device.filter fun w => w.thread = some i

/-- A thread has written its keys in one piece, late enough after its decision, or
nothing yet. -/
def PastesOk (s : State) (i : ℕ) : Prop :=
  match s.pastedAfter? i with
  | some d => ∃ time, d.time + SAFETY_DELAY ≤ time ∧ s.pastesOf i = [⟨time, some i, pasteEvents⟩]
  | none => s.pastesOf i = []

structure Inv (s : State) : Prop where
  flag : s.focusAckReceived_ = answered s.marks
  threads : ∀ i t, s.threads[i]? = some t → ThreadOk s i t
  pastes : ∀ i, PastesOk s i

theorem inv_initial : Inv {} where
  flag := rfl
  threads := by simp
  pastes := fun _ => rfl

theorem PastesOk.congr {s s' : State} {i : ℕ} (hpastes : PastesOk s i)
    (hdecision : s'.pastedAfter? i = s.pastedAfter? i) (hwrites : s'.pastesOf i = s.pastesOf i) :
    PastesOk s' i := by
  unfold PastesOk at hpastes ⊢
  rw [hdecision, hwrites]
  exact hpastes

theorem pastedAfter?_notified (phase : Phase) :
    phase.notified.pastedAfter? = phase.pastedAfter? := by
  cases phase <;> rfl

theorem pastesOf_write_none (s : State) (events : List InputEvent) (i : ℕ) :
    (s.write none events).pastesOf i = s.pastesOf i := by
  unfold State.write State.pastesOf
  split <;> simp

theorem later_refl_write (s : State) (thread : Option ℕ) (events : List InputEvent) :
    (s.write thread events).now = s.now ∧ (s.write thread events).marks = s.marks ∧
      (s.write thread events).threads = s.threads ∧
      (s.write thread events).focusAckReceived_ = s.focusAckReceived_ := by
  unfold State.write
  split <;> simp

/-- What a move other than the paste leaves as it was. -/
theorem pastedAfter?_next {s : State} {phase next : Phase} {move : Move}
    (hnext : phase.next s move = some next) (hmove : move ≠ .paste) :
    next.pastedAfter? = phase.pastedAfter? := by
  cases move <;> cases phase <;>
    simp only [Phase.next, reduceCtorEq, Option.some.injEq] at hnext <;>
    first
      | exact absurd rfl hmove
      | (subst hnext; first | rfl | (split <;> rfl))
      | (split at hnext
         · obtain rfl := Option.some.inj hnext
           rfl
         · cases hnext)

theorem step_thread {s s' : State} {i : ℕ} {move : Move}
    (hstep : step s (.thread i move) = some s') :
    ∃ t phase, s.threads[i]? = some t ∧ t.phase.next s move = some phase ∧
      s' = (s.setPhase i t phase).write (if move = .paste then some i else none) move.writes := by
  simp only [step, Option.bind_eq_bind, Option.bind_eq_some_iff, Option.pure_def,
    Option.some.injEq] at hstep
  obtain ⟨t, ht, phase, hphase, rfl⟩ := hstep
  exact ⟨t, phase, ht, hphase, rfl⟩

theorem getElem?_setPhase {s : State} {i : ℕ} {t : FocusThread} (ht : s.threads[i]? = some t)
    (phase : Phase) (j : ℕ) :
    (s.setPhase i t phase).threads[j]? =
      if j = i then some { t with phase } else s.threads[j]? := by
  have hlength := (List.getElem?_eq_some_iff.mp ht).1
  by_cases hj : j = i
  · subst hj
    simp [State.setPhase, hlength]
  · rw [if_neg hj]
    exact List.getElem?_set_ne (Ne.symm hj)

theorem threadOk_thread {s s' : State} {i : ℕ} {move : Move} (hinv : Inv s)
    (hstep : step s (.thread i move) = some s') :
    s'.focusAckReceived_ = answered s'.marks ∧
      ∀ j t, s'.threads[j]? = some t → ThreadOk s' j t := by
  obtain ⟨t, phase, ht, hphase, rfl⟩ := step_thread hstep
  obtain ⟨hnow, hmarks, hthreads, hflag⟩ := later_refl_write (s.setPhase i t phase)
    (if move = .paste then some i else none) move.writes
  have hok := hinv.threads i t ht
  refine ⟨?_, ?_⟩
  · rw [hflag, hmarks]
    exact hinv.flag
  · intro j u hu
    have hlater : Later s ((s.setPhase i t phase).write
        (if move = .paste then some i else none) move.writes) :=
      ⟨hnow.ge, by rw [hmarks]; exact List.prefix_rfl⟩
    rw [hthreads, getElem?_setPhase ht] at hu
    split at hu
    · next hj =>
        obtain rfl := Option.some.inj hu
        subst hj
        have hmoved : PhaseOk s t.triggeredAt t.mark phase := phaseOk_next hinv.flag hok hphase
        exact ThreadOk.later_state ⟨hok.triggered, hok.mark, hmoved⟩ hlater
    · exact (hinv.threads j u hu).later_state hlater

theorem pastesOk_thread {s s' : State} {i : ℕ} {move : Move} (hinv : Inv s)
    (hstep : step s (.thread i move) = some s') (j : ℕ) : PastesOk s' j := by
  obtain ⟨t, phase, ht, hphase, rfl⟩ := step_thread hstep
  obtain ⟨-, -, hthreads, -⟩ := later_refl_write (s.setPhase i t phase)
    (if move = .paste then some i else none) move.writes
  have hpastes := hinv.pastes j
  by_cases hj : j = i
  · subst hj
    by_cases hmove : move = .paste
    · subst hmove
      cases hfrom : t.phase <;> rw [hfrom] at hphase <;>
        simp only [Phase.next, reduceCtorEq] at hphase
      rename_i decision
      split at hphase
      · next htime =>
          obtain rfl := Option.some.inj hphase
          have hbefore : s.pastesOf j = [] := by
            simpa [PastesOk, State.pastedAfter?, ht, hfrom, Phase.pastedAfter?] using hpastes
          have hdecision : ((s.setPhase j t (.pasted decision)).write (some j)
              pasteEvents).pastedAfter? j = some decision := by
            change ((s.setPhase j t (.pasted decision)).threads[j]?.bind _) = _
            rw [getElem?_setPhase ht]
            simp [Phase.pastedAfter?]
          change PastesOk ((s.setPhase j t (.pasted decision)).write (some j) pasteEvents) j
          unfold PastesOk
          rw [hdecision]
          refine ⟨s.now, htime, ?_⟩
          change List.filter _ (s.device ++ [⟨s.now, some j, pasteEvents⟩]) = _
          rw [List.filter_append]
          change s.pastesOf j ++ _ = _
          simp [hbefore]
      · cases hphase
    · rw [if_neg hmove]
      refine hpastes.congr ?_ (pastesOf_write_none _ _ _)
      rw [if_neg hmove] at hthreads
      rw [State.pastedAfter?, hthreads, getElem?_setPhase ht, State.pastedAfter?, ht]
      simpa using pastedAfter?_next hphase hmove
  · refine hpastes.congr ?_ ?_
    · rw [State.pastedAfter?, hthreads, getElem?_setPhase ht, if_neg hj]
      rfl
    · by_cases hmove : move = .paste
      · subst hmove
        change List.filter _ (s.device ++ [⟨s.now, some i, pasteEvents⟩]) = _
        rw [List.filter_append]
        change s.pastesOf j ++ _ = _
        simp [Ne.symm hj]
      · rw [if_neg hmove]
        exact pastesOf_write_none _ _ _

theorem inv_step {s s' : State} {label : Label} (hinv : Inv s)
    (hstep : step s label = some s') : Inv s' := by
  cases label with
  | trigger sent =>
      obtain rfl := Option.some.inj hstep
      have hlater : Later s
          { s with
            focusAckReceived_ := false
            threads := s.threads ++ [⟨s.now, s.marks.length, .starting⟩]
            marks := s.marks ++ [.trigger s.threads.length sent]
            outstanding :=
              if sent then s.outstanding ++ [.thread s.threads.length] else s.outstanding } :=
        ⟨le_rfl, List.prefix_append _ _⟩
      refine ⟨(answered_append s.marks (.trigger s.threads.length sent)).symm,
        fun i t ht => ?_, fun i => ?_⟩
      · rcases Nat.lt_or_ge i s.threads.length with hi | hi
        · rw [List.getElem?_append_left hi] at ht
          exact (hinv.threads i t ht).later_state hlater
        · rw [List.getElem?_append_right hi, List.getElem?_singleton] at ht
          split at ht
          · next hzero =>
              obtain rfl := Option.some.inj ht
              obtain rfl : i = s.threads.length := by omega
              exact ⟨le_rfl, ⟨sent, by simp⟩, trivial⟩
          · cases ht
      · refine (hinv.pastes i).congr ?_ rfl
        rcases Nat.lt_or_ge i s.threads.length with hi | hi
        · rw [State.pastedAfter?, List.getElem?_append_left hi]
          rfl
        · rw [State.pastedAfter?, State.pastedAfter?, List.getElem?_append_right hi,
            List.getElem?_eq_none hi, List.getElem?_singleton]
          split <;> rfl
  | focusChatGPT sent =>
      obtain rfl := Option.some.inj hstep
      refine ⟨hinv.flag, fun i t ht => ?_, hinv.pastes⟩
      exact (hinv.threads i t ht).later_state ⟨le_rfl, List.prefix_rfl⟩
  | ack request =>
      simp only [step] at hstep
      split at hstep
      · obtain rfl := Option.some.inj hstep
        refine ⟨(answered_append s.marks (.ack request)).symm, fun i t ht => ?_, hinv.pastes⟩
        exact (hinv.threads i t ht).later_state ⟨le_rfl, List.prefix_append _ _⟩
      · cases hstep
  | notify =>
      obtain rfl := Option.some.inj hstep
      refine ⟨hinv.flag, fun i t ht => ?_, fun i => (hinv.pastes i).congr ?_ rfl⟩
      · rw [List.getElem?_map, Option.map_eq_some_iff] at ht
        obtain ⟨u, hu, rfl⟩ := ht
        have hok := hinv.threads i u hu
        exact ⟨hok.triggered, hok.mark, hok.phase.notified.later_state ⟨le_rfl, List.prefix_rfl⟩⟩
      · rw [State.pastedAfter?, State.pastedAfter?, List.getElem?_map]
        cases s.threads[i]? with
        | none => rfl
        | some t => exact pastedAfter?_notified t.phase
  | thread i move =>
      obtain ⟨hflag, hthreads⟩ := threadOk_thread hinv hstep
      exact ⟨hflag, hthreads, pastesOk_thread hinv hstep⟩
  | write events =>
      obtain rfl := Option.some.inj hstep
      obtain ⟨hnow, hmarks, hthreads, hflag⟩ := later_refl_write s none events
      refine ⟨by rw [hflag, hmarks]; exact hinv.flag, fun i t ht => ?_, fun i => ?_⟩
      · rw [hthreads] at ht
        exact (hinv.threads i t ht).later_state ⟨hnow.ge, by rw [hmarks]⟩
      · refine (hinv.pastes i).congr ?_ (pastesOf_write_none s events i)
        rw [State.pastedAfter?, hthreads]
        rfl
  | tick elapsed =>
      obtain rfl := Option.some.inj hstep
      refine ⟨hinv.flag, fun i t ht => ?_, hinv.pastes⟩
      exact (hinv.threads i t ht).later_state ⟨Nat.le_add_right _ _, List.prefix_rfl⟩

theorem inv_reachable {s : State} (hreach : TransitionSystem.Reachable step {} s) : Inv s :=
  hreach.invariant (fun hinv hstep => inv_step hinv hstep) inv_initial

theorem decisionOk_of_decision {s : State} {triggeredAt mark : ℕ} {phase : Phase} {d : Decision}
    (hphase : PhaseOk s triggeredAt mark phase) (hd : phase.decision? = some d) :
    DecisionOk s triggeredAt mark d := by
  cases phase <;> simp only [Phase.decision?, reduceCtorEq, Option.some.injEq] at hd <;>
    exact hd ▸ hphase

theorem answered_take_iff {marks : List Mark} {seen : ℕ} (hpos : 0 < seen)
    (hseen : seen ≤ marks.length) :
    answered (marks.take seen) = true ↔ ∃ request, marks[seen - 1]? = some (.ack request) := by
  have hlast : (marks.take seen).getLast? = marks[seen - 1]? := by
    rw [List.getLast?_eq_getElem?, List.length_take, Nat.min_eq_left hseen,
      List.getElem?_take_of_lt (by omega)]
  rw [answered, hlast]
  cases hmark : marks[seen - 1]? with
  | none => simp
  | some mark => cases mark <;> simp [Mark.isAck]

/-- A wait returns `true` exactly when the last thing that happened to the flag was
an answer, which then came after the thread's own trigger, and it returns `false`
at the end of the full time only. -/
theorem decided_of_reachable {s : State} (hreach : TransitionSystem.Reachable step {} s) {i : ℕ}
    {t : FocusThread} (ht : s.threads[i]? = some t) {d : Decision}
    (hd : t.phase.decision? = some d) :
    (d.received = true ↔ ∃ request, s.marks[d.seen - 1]? = some (.ack request)) ∧
      (∃ sent, s.marks[t.mark]? = some (.trigger i sent)) ∧ t.mark < d.seen ∧
      d.seen ≤ s.marks.length ∧
      (d.received = false → t.triggeredAt + ACK_TIMEOUT ≤ d.time) := by
  have hok := (inv_reachable hreach).threads i t ht
  have hdecision := decisionOk_of_decision hok.phase hd
  refine ⟨?_, hok.mark, hdecision.later, hdecision.seen,
    fun hnot => hdecision.deadline.trans (hdecision.waited hnot)⟩
  rw [hdecision.received]
  exact answered_take_iff (Nat.zero_lt_of_lt hdecision.later) hdecision.seen

/-- One trigger, answered while its thread is blocked. -/
def answeredRun : List Label :=
  [.trigger true, .thread 0 .begin, .thread 0 .check, .thread 0 .block, .ack (some (.thread 0)),
    .notify, .thread 0 .check, .tick 50, .thread 0 .paste, .thread 0 .finish]

def answeredThread : FocusThread := ⟨0, 0, .done ⟨true, 400, 2, 0⟩⟩

def afterAnsweredRun : State :=
  { now := 50
    focusAckReceived_ := true
    threads := [answeredThread]
    marks := [.trigger 0 true, .ack (some (.thread 0))]
    outstanding := []
    device := [⟨50, some 0, pasteEvents⟩, ⟨50, none, [synReport]⟩] }

theorem execute_answeredRun :
    TransitionSystem.execute step {} answeredRun = some afterAnsweredRun := by
  decide

theorem decided_answeredThread :
    (true = true ↔ ∃ request, afterAnsweredRun.marks[2 - 1]? = some (.ack request)) ∧
      (∃ sent, afterAnsweredRun.marks[0]? = some (.trigger 0 sent)) ∧ 0 < 2 ∧
      2 ≤ afterAnsweredRun.marks.length ∧ (true = false → 0 + ACK_TIMEOUT ≤ 0) :=
  decided_of_reachable (.of_execute execute_answeredRun) (t := answeredThread) rfl rfl

/-! ## Every thread gets to its paste -/

/-- The thread can be brought to its end by letting time pass and by moves of its
own. -/
def CanFinish (s : State) (i : ℕ) : Prop :=
  ∃ labels s', (∀ label ∈ labels, ∃ elapsed move, label = .tick elapsed ∨ label = .thread i move) ∧
    TransitionSystem.execute step s labels = some s' ∧
    ∃ t d, s'.threads[i]? = some t ∧ t.phase = .done d

theorem CanFinish.of_tick {s : State} {i : ℕ} (elapsed : ℕ)
    (hnext : CanFinish { s with now := s.now + elapsed } i) : CanFinish s i := by
  obtain ⟨labels, s', hown, hrun, hdone⟩ := hnext
  refine ⟨.tick elapsed :: labels, s', ?_, hrun, hdone⟩
  exact List.forall_mem_cons.mpr ⟨⟨elapsed, .begin, Or.inl rfl⟩, hown⟩

theorem CanFinish.of_move {s : State} {i : ℕ} {t : FocusThread} (move : Move) (phase : Phase)
    (ht : s.threads[i]? = some t) (hphase : t.phase.next s move = some phase)
    (hnext : ∀ s' : State, s'.threads[i]? = some { t with phase } → s'.now = s.now →
      CanFinish s' i) : CanFinish s i := by
  obtain ⟨hnow, -, hthreads, -⟩ := later_refl_write (s.setPhase i t phase)
    (if move = .paste then some i else none) move.writes
  obtain ⟨labels, s', hown, hrun, hdone⟩ := hnext _
    (by rw [hthreads, getElem?_setPhase ht, if_pos rfl]) hnow
  refine ⟨.thread i move :: labels, s', ?_, ?_, hdone⟩
  · exact List.forall_mem_cons.mpr ⟨⟨0, move, Or.inr rfl⟩, hown⟩
  · simp only [TransitionSystem.execute, step, ht, hphase, Option.bind_eq_bind,
      Option.bind_some, Option.pure_def]
    exact hrun

section

variable {s : State} {i : ℕ} {t : FocusThread} {d : Decision} {deadline : ℕ}

theorem canFinish_done (ht : s.threads[i]? = some t) (hphase : t.phase = .done d) :
    CanFinish s i :=
  ⟨[], s, by simp, rfl, t, d, ht, hphase⟩

theorem canFinish_pasted (ht : s.threads[i]? = some t) (hphase : t.phase = .pasted d) :
    CanFinish s i :=
  .of_move .finish (.done d) ht (by rw [hphase]; rfl) fun _ ht' _ => canFinish_done ht' rfl

theorem canFinish_sleeping (ht : s.threads[i]? = some t) (hphase : t.phase = .sleeping d) :
    CanFinish s i := by
  refine .of_tick (d.time + SAFETY_DELAY) (.of_move .paste (.pasted d) ht ?_
    fun _ ht' _ => canFinish_pasted ht' rfl)
  rw [hphase]
  exact if_pos (Nat.le_add_left _ _)

theorem canFinish_expired (ht : s.threads[i]? = some t) (hphase : t.phase = .expired deadline) :
    CanFinish s i :=
  .of_move .expire (.sleeping (s.decide deadline)) ht (by rw [hphase]; rfl)
    fun _ ht' _ => canFinish_sleeping ht' rfl

theorem canFinish_waiting (ht : s.threads[i]? = some t) (hphase : t.phase = .waiting deadline) :
    CanFinish s i := by
  refine .of_tick deadline (.of_move .timeout (.expired deadline) ht ?_
    fun _ ht' _ => canFinish_expired ht' rfl)
  rw [hphase]
  exact if_pos (Nat.le_add_left _ _)

theorem canFinish_blocking (ht : s.threads[i]? = some t) (hphase : t.phase = .blocking deadline) :
    CanFinish s i :=
  .of_move .block (.waiting deadline) ht (by rw [hphase]; rfl)
    fun _ ht' _ => canFinish_waiting ht' rfl

theorem canFinish_checking (ht : s.threads[i]? = some t) (hphase : t.phase = .checking deadline) :
    CanFinish s i := by
  refine .of_move .check _ ht (by rw [hphase]; rfl) fun _ ht' _ => ?_
  by_cases hreceived : s.focusAckReceived_ = true
  · exact canFinish_sleeping ht' (if_pos hreceived)
  · exact canFinish_blocking ht' (if_neg hreceived)

theorem canFinish (ht : s.threads[i]? = some t) : CanFinish s i := by
  cases hphase : t.phase with
  | starting =>
      exact .of_move .begin (.checking (s.now + ACK_TIMEOUT)) ht (by rw [hphase]; rfl)
        fun _ ht' _ => canFinish_checking ht' rfl
  | checking deadline => exact canFinish_checking ht hphase
  | blocking deadline => exact canFinish_blocking ht hphase
  | waiting deadline => exact canFinish_waiting ht hphase
  | expired deadline => exact canFinish_expired ht hphase
  | sleeping d => exact canFinish_sleeping ht hphase
  | pasted d => exact canFinish_pasted ht hphase
  | done d => exact canFinish_done ht hphase

end

/-- Every trigger's thread writes its keys in one piece and never twice, no sooner
than the delay after its wait, which without an answer lasts the whole time; and
from wherever it is it can get there without anybody's help. -/
theorem pastes_of_reachable {s : State} (hreach : TransitionSystem.Reachable step {} s) {i : ℕ}
    {t : FocusThread} (ht : s.threads[i]? = some t) :
    CanFinish s i ∧
      (t.phase.pastedAfter? = none → s.pastesOf i = []) ∧
      ∀ d, t.phase.pastedAfter? = some d →
        ∃ time, s.pastesOf i = [⟨time, some i, pasteEvents⟩] ∧
          t.triggeredAt ≤ d.time ∧ d.time + SAFETY_DELAY ≤ time ∧
          (d.received = false → t.triggeredAt + ACK_TIMEOUT ≤ d.time) := by
  have hinv := inv_reachable hreach
  have hpastes := hinv.pastes i
  unfold PastesOk State.pastedAfter? at hpastes
  rw [ht, Option.bind_some] at hpastes
  refine ⟨canFinish ht, fun hnone => ?_, fun d hd => ?_⟩
  · rw [hnone] at hpastes
    exact hpastes
  · rw [hd] at hpastes
    obtain ⟨time, htime, hwrites⟩ := hpastes
    have hdecision : t.phase.decision? = some d := by
      cases hphase : t.phase <;> rw [hphase] at hd <;>
        simp only [Phase.pastedAfter?, reduceCtorEq] at hd <;> exact hd
    have hok := decisionOk_of_decision (hinv.threads i t ht).phase hdecision
    exact ⟨time, hwrites, hok.triggered, htime, fun hnot =>
      hok.deadline.trans (hok.waited hnot)⟩

theorem pastes_answeredThread :
    CanFinish afterAnsweredRun 0 ∧
      (answeredThread.phase.pastedAfter? = none → afterAnsweredRun.pastesOf 0 = []) ∧
      ∀ d, answeredThread.phase.pastedAfter? = some d →
        ∃ time, afterAnsweredRun.pastesOf 0 = [⟨time, some 0, pasteEvents⟩] ∧
          answeredThread.triggeredAt ≤ d.time ∧ d.time + SAFETY_DELAY ≤ time ∧
          (d.received = false → answeredThread.triggeredAt + ACK_TIMEOUT ≤ d.time) :=
  pastes_of_reachable (.of_execute execute_answeredRun) rfl

/-! ## Runs in which requests do not overlap -/

/-- A trigger or a command finds no request open, and only the extension answers. -/
def Quiet (s : State) : Label → Prop
  | .trigger _ | .focusChatGPT _ => s.outstanding = []
  | .ack request => request ≠ none
  | _ => True

instance (s : State) (label : Label) : Decidable (Quiet s label) := by
  cases label <;> unfold Quiet <;> infer_instance

/-- Every trigger's request among the first marks has its answer among them. -/
def AllAnswered (marks : List Mark) : Prop :=
  ∀ k, .trigger k true ∈ marks → .ack (some (.thread k)) ∈ marks

structure QuietInv (s : State) : Prop where
  single : s.outstanding.length ≤ 1
  settled : answered s.marks = true → ∀ k, .thread k ∉ s.outstanding
  requests : ∀ k, .trigger k true ∈ s.marks →
    .thread k ∈ s.outstanding ∨ .ack (some (.thread k)) ∈ s.marks
  decisions : ∀ (i : ℕ) (t : FocusThread) (d : Decision), s.threads[i]? = some t →
    t.phase.decision? = some d →
      d.seen ≤ s.marks.length ∧ (d.received = true → AllAnswered (s.marks.take d.seen))

theorem QuietInv.allAnswered {s : State} (hinv : QuietInv s)
    (hanswered : answered s.marks = true) : AllAnswered s.marks := by
  intro k hk
  rcases hinv.requests k hk with hopen | hack
  · exact absurd hopen (hinv.settled hanswered k)
  · exact hack

theorem QuietInv.allAnswered_of_closed {s : State} (hinv : QuietInv s)
    (hclosed : s.outstanding = []) : AllAnswered s.marks := by
  intro k hk
  rcases hinv.requests k hk with hopen | hack
  · rw [hclosed] at hopen
    cases hopen
  · exact hack

/-- A move keeps a thread's decision or makes the one that the flag gives now. -/
theorem decision?_next {s : State} {phase next : Phase} {move : Move}
    (hnext : phase.next s move = some next) :
    next.decision? = phase.decision? ∨ ∃ deadline, next.decision? = some (s.decide deadline) := by
  cases move <;> cases phase <;>
    simp only [Phase.next, reduceCtorEq, Option.some.injEq] at hnext
  case check.checking deadline =>
      subst hnext
      split
      · exact Or.inr ⟨deadline, rfl⟩
      · exact Or.inl rfl
  case expire.expired deadline =>
      subst hnext
      exact Or.inr ⟨deadline, rfl⟩
  case timeout.waiting =>
      split at hnext
      · obtain rfl := Option.some.inj hnext
        exact Or.inl rfl
      · cases hnext
  case paste.sleeping =>
      split at hnext
      · obtain rfl := Option.some.inj hnext
        exact Or.inl rfl
      · cases hnext
  all_goals
    subst hnext
    exact Or.inl rfl

theorem decision?_notified (phase : Phase) : phase.notified.decision? = phase.decision? := by
  cases phase <;> rfl

theorem quietInv_initial : QuietInv {} where
  single := Nat.zero_le _
  settled := by simp
  requests := by simp
  decisions := by simp

/-- Decisions made before keep what they saw when marks are added. -/
theorem decisions_append {s : State} (hinv : QuietInv s) (mark : Mark) {i : ℕ} {t : FocusThread}
    {d : Decision} (ht : s.threads[i]? = some t) (hd : t.phase.decision? = some d) :
    d.seen ≤ (s.marks ++ [mark]).length ∧
      (d.received = true → AllAnswered ((s.marks ++ [mark]).take d.seen)) := by
  obtain ⟨hseen, hreceived⟩ := hinv.decisions i t d ht hd
  rw [List.take_append_of_le_length hseen]
  exact ⟨hseen.trans (by simp), hreceived⟩

theorem quietInv_thread {s s' : State} {i : ℕ} {move : Move} (hflag : Inv s) (hinv : QuietInv s)
    (hstep : step s (.thread i move) = some s') : QuietInv s' := by
  obtain ⟨t, phase, ht, hphase, rfl⟩ := step_thread hstep
  obtain ⟨-, hmarks, hthreads, -⟩ := later_refl_write (s.setPhase i t phase)
    (if move = .paste then some i else none) move.writes
  have hopen : ((s.setPhase i t phase).write (if move = .paste then some i else none)
      move.writes).outstanding = s.outstanding := by
    unfold State.write
    split <;> rfl
  change _ = s.marks at hmarks
  refine ⟨by rw [hopen]; exact hinv.single, by rw [hopen, hmarks]; exact hinv.settled,
    by rw [hopen, hmarks]; exact hinv.requests, fun j u d hu hd => ?_⟩
  rw [hmarks]
  rw [hthreads, getElem?_setPhase ht] at hu
  split at hu
  · obtain rfl := Option.some.inj hu
    rcases decision?_next hphase with hsame | ⟨deadline, hnew⟩
    · exact hinv.decisions i t d ht (hsame.symm.trans hd)
    · obtain rfl : s.decide deadline = d := Option.some.inj (hnew.symm.trans hd)
      refine ⟨le_rfl, fun hreceived => ?_⟩
      change AllAnswered (s.marks.take s.marks.length)
      rw [List.take_length]
      exact hinv.allAnswered (hflag.flag.symm.trans hreceived)
  · exact hinv.decisions j u d hu hd

theorem quietInv_trigger {s s' : State} {sent : Bool} (hinv : QuietInv s)
    (hclosed : s.outstanding = []) (hstep : step s (.trigger sent) = some s') : QuietInv s' := by
  obtain rfl := Option.some.inj hstep
  refine ⟨?_, ?_, fun k hk => ?_, fun i t d ht hd => ?_⟩
  · dsimp only
    rw [hclosed]
    split <;> simp
  · intro hanswered
    rw [answered_append] at hanswered
    cases hanswered
  · dsimp only at hk ⊢
    rcases List.mem_append.mp hk with hk | hk
    · exact Or.inr (List.mem_append_left _ (hinv.allAnswered_of_closed hclosed k hk))
    · obtain ⟨rfl, rfl⟩ := Mark.trigger.inj (List.mem_singleton.mp hk)
      exact Or.inl (by simp)
  · rcases Nat.lt_or_ge i s.threads.length with hi | hi
    · rw [List.getElem?_append_left hi] at ht
      exact decisions_append hinv _ ht hd
    · rw [List.getElem?_append_right hi, List.getElem?_singleton] at ht
      split at ht
      · obtain rfl := Option.some.inj ht
        cases hd
      · cases ht

/-- The one open request is the one that is answered. -/
theorem quietInv_ack {s s' : State} {k : Request} (hinv : QuietInv s)
    (hstep : step s (.ack (some k)) = some s') : QuietInv s' := by
  simp only [step] at hstep
  split at hstep
  · next hopen =>
      obtain rfl := Option.some.inj hstep
      have hk : k ∈ s.outstanding := hopen k rfl
      have hall : s.outstanding = [k] := by
        obtain ⟨other, hother⟩ := List.length_eq_one_iff.mp
          (Nat.le_antisymm hinv.single (List.length_pos_of_mem hk))
        rw [hother] at hk ⊢
        rw [List.mem_singleton.mp hk]
      have hnone : s.outstanding.erase k = [] := by rw [hall]; simp
      refine ⟨?_, fun _ j => ?_, fun j hj => ?_, fun i t d ht hd =>
        decisions_append hinv _ ht hd⟩
      · dsimp only
        rw [hnone]
        exact Nat.zero_le _
      · dsimp only
        rw [hnone]
        exact List.not_mem_nil
      · dsimp only at hj ⊢
        rcases List.mem_append.mp hj with hj | hj
        · rcases hinv.requests j hj with hj | hj
          · rw [hall, List.mem_singleton] at hj
            subst hj
            exact Or.inr (by simp)
          · exact Or.inr (List.mem_append_left _ hj)
        · simp at hj
  · cases hstep

theorem quietInv_step {s s' : State} {label : Label} (hflag : Inv s) (hinv : QuietInv s)
    (hquiet : Quiet s label) (hstep : step s label = some s') : QuietInv s' := by
  cases label with
  | trigger sent => exact quietInv_trigger hinv hquiet hstep
  | focusChatGPT sent =>
      obtain rfl := Option.some.inj hstep
      change s.outstanding = [] at hquiet
      refine ⟨?_, fun _ k => ?_, fun k hk => ?_, hinv.decisions⟩
      · dsimp only
        rw [hquiet]
        split <;> simp
      · dsimp only
        rw [hquiet]
        split <;> simp
      · exact Or.inr (hinv.allAnswered_of_closed hquiet k hk)
  | ack request =>
      obtain ⟨k, rfl⟩ := Option.ne_none_iff_exists'.mp hquiet
      exact quietInv_ack hinv hstep
  | notify =>
      obtain rfl := Option.some.inj hstep
      refine ⟨hinv.single, hinv.settled, hinv.requests, fun i t d ht hd => ?_⟩
      rw [List.getElem?_map, Option.map_eq_some_iff] at ht
      obtain ⟨u, hu, rfl⟩ := ht
      exact hinv.decisions i u d hu ((decision?_notified u.phase).symm.trans hd)
  | thread i move => exact quietInv_thread hflag hinv hstep
  | write events =>
      obtain rfl := Option.some.inj hstep
      unfold State.write
      split
      · exact hinv
      · exact ⟨hinv.single, hinv.settled, hinv.requests, hinv.decisions⟩
  | tick elapsed =>
      obtain rfl := Option.some.inj hstep
      exact ⟨hinv.single, hinv.settled, hinv.requests, hinv.decisions⟩

/-- If no trigger and no `focusChatGPT` command comes while a request is open and only the
extension answers, a paste counts as confirmed only when the request of every trigger so
far, its own included, has been answered. -/
theorem answered_of_received {s : State}
    (hreach : TransitionSystem.ReachableWhere step Quiet {} s) {i : ℕ} {t : FocusThread}
    (ht : s.threads[i]? = some t) {d : Decision} (hd : t.phase.decision? = some d)
    (hreceived : d.received = true) {k : ℕ}
    (hk : .trigger k true ∈ s.marks.take d.seen) :
    .ack (some (.thread k)) ∈ s.marks.take d.seen := by
  have hinv : Inv s ∧ QuietInv s := hreach.invariant (I := fun s => Inv s ∧ QuietInv s)
    (fun hinv hquiet hstep => ⟨inv_step hinv.1 hstep, quietInv_step hinv.1 hinv.2 hquiet hstep⟩)
    ⟨inv_initial, quietInv_initial⟩
  exact (hinv.2.decisions i t d ht hd).2 hreceived k hk

theorem answered_answeredThread :
    .ack (some (.thread 0)) ∈ afterAnsweredRun.marks.take 2 :=
  answered_of_received (i := 0) (t := answeredThread) (d := ⟨true, 400, 2, 0⟩)
    (.of_execute (by decide) execute_answeredRun) rfl rfl rfl (by decide)

/-- Without the condition the answer to a command's request confirms the paste of a
trigger that came before it. -/
example :
    (TransitionSystem.execute step {} [.focusChatGPT true, .trigger true, .ack (some (.command 0)),
        .thread 0 .begin, .thread 0 .check]).map
      (fun s => (s.threads[0]?.bind fun t => t.phase.decision?.map Decision.received,
        s.outstanding)) = some (some true, [.thread 0]) := by
  decide

end FocusAck

end AutomateLinux
