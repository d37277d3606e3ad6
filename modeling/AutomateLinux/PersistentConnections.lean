import AutomateLinux.DaemonServerRoles

/-!
# Connections that are meant to stay

The dispatcher's return code keeps the connection of a registering command open.
It is computed from the name of the command being processed and from nothing
else, so it cannot know that the connection has been registered before: the
next command on it that is not a registering one takes it out of the loop.
-/

namespace AutomateLinux

namespace DaemonServer

open TransitionSystem PeerState

/-- The loop's reaction to a return code leaves the client tracked and its
descriptor what it is. -/
def KeepsClient (dump : Json → String) (h : Handle) (s : DaemonState)
    (label : Label) : Prop :=
  label = .clientReturn → s.serving = some (.handle_client_data, h) →
    ∀ s', step dump s label = some s' →
      s'.clients h.fd = s.clients h.fd ∧
        s'.process.fds.lookup h.fd = s.process.fds.lookup h.fd

/-- A command that is dispatched for the client is a registering one. -/
def OnlyRegisters (h : Handle) (s : DaemonState) (label : Label) : Prop :=
  ∀ command env commandName, label = .line (some command) env →
    s.serving = some (.handle_client_data, h) →
      commandNameOf command = .ok commandName →
        commandName ∈ persistentCommands

/-- The client being served is tracked, and a pending return code is its. -/
structure Serves (s : DaemonState) : Prop where
  tracked : ∀ h, s.serving = some (.handle_client_data, h) →
    (s.clients h.fd).isSome = true
  returned : ∀ fd res, s.returned = some (fd, res) →
    (∃ h, s.serving = some (.handle_client_data, h) ∧ h.fd = fd) ∧
      (res = 0 ∨ res = 1 ∨ res = 2)

/-- A pending return code of the client keeps it. -/
def KeptBy (h : Handle) (s : DaemonState) : Prop :=
  s.serving = some (.handle_client_data, h) →
    ∀ fd res, s.returned = some (fd, res) → res = 0

section

variable {dump : Json → String} {s s' : DaemonState} {label : Label}

/-- Only lines and the loop's reaction to them touch a return code, and while
one is pending the loop's tables wait. -/
theorem step_serving (hstep : step dump s label = some s')
    (hline : ∀ message env, label ≠ .line message env)
    (hreturn : label ≠ .clientReturn) :
    s'.returned = s.returned ∧
      (s'.serving = s.serving ∧ s'.clients = s.clients ∨
        s.returned = none ∧ ∀ h,
          s'.serving = some (.handle_client_data, h) →
            (s'.clients h.fd).isSome = true) := by
  cases step_cases hstep with
  | setupPeerSocket succeeds => cases succeeds <;> exact ⟨rfl, Or.inl ⟨rfl, rfl⟩⟩
  | acceptClient hidle =>
      obtain ⟨hserving, hnone⟩ := idle_iff.mp hidle
      exact ⟨rfl, Or.inr ⟨hnone, by simp [acceptClient, hserving]⟩⟩
  | read reader fd connection _ hidle htracked =>
      obtain ⟨-, hnone⟩ := idle_iff.mp hidle
      refine ⟨rfl, Or.inr ⟨hnone, fun h hserving => ?_⟩⟩
      obtain ⟨rfl, rfl⟩ := Prod.mk.inj (Option.some.inj hserving)
      exact htracked
  | line message env => exact absurd rfl (hline message env)
  | clientReturn => exact absurd rfl hreturn
  | endRead hnone => exact ⟨rfl, Or.inr ⟨hnone, by simp⟩⟩
  | clientEof fd hidle =>
      obtain ⟨hserving, hnone⟩ := idle_iff.mp hidle
      refine ⟨rfl, Or.inr ⟨hnone, ?_⟩⟩
      simp [clientEof, eraseClient, closeFd, unregisterLogSubscriber, hserving]
  | finishThread position env t =>
      have hloop := (threadBody_sameSockets env t.command t.commandName
        t.client_sock.fd s.g_clientSocket.fd s).loop
      refine ⟨?_, Or.inl ⟨?_, ?_⟩⟩ <;>
        simp only [finishThread, closeFd, hloop]
  | focusChatGPT writeFails =>
      unfold triggerChromeChatGPTFocus
      split <;> exact ⟨rfl, Or.inl ⟨rfl, rfl⟩⟩
  | _ => exact ⟨rfl, Or.inl ⟨rfl, rfl⟩⟩

/-- What a line leaves pending: the code of the command's name, for a client,
and otherwise nothing. -/
theorem line_returned {env : Effects} {message : Option Json} {reader : Reader}
    {h : Handle} (hline : line dump env message reader h s = .ok s')
    (hnone : s.returned = none) :
    s'.serving = s.serving ∧ s'.clients = s.clients ∧
      (s'.returned = none ∨ reader = .handle_client_data ∧
        ∃ command commandName, message = some command ∧
          commandNameOf command = .ok commandName ∧
            s'.returned = some (h.fd, returnCode commandName)) := by
  rcases line_cases hline with hrelabels | ⟨j, before, res, after, rfl, hrelabels,
    hcall, rfl⟩
  · obtain ⟨_, _, rfl, -⟩ := hrelabels
    exact ⟨rfl, rfl, Or.inl hnone⟩
  · obtain ⟨commandName, handled, hname, rfl, hhandled, rfl⟩ :=
      callMainCommand_cases hcall
    have hsame : handled.serving = s.serving ∧ handled.clients = s.clients ∧
        handled.returned = none := by
      obtain ⟨_, _, rfl, -⟩ := hrelabels
      rcases hhandled with rfl | ⟨handler, -, rfl⟩
      · exact ⟨rfl, rfl, hnone⟩
      · rw [(handlers_sameSockets env handler j h.fd _).loop]
        exact ⟨rfl, rfl, hnone⟩
    obtain ⟨hserving, hclients, hreturned⟩ := hsame
    by_cases hreader : reader = .handle_client_data
    · simp only [hreader, if_true]
      refine ⟨?_, ?_, Or.inr ⟨trivial, j, commandName, rfl, hname, rfl⟩⟩
      · split <;> exact hserving
      · split <;> exact hclients
    · simp only [hreader, if_false, false_and, or_false]
      refine ⟨?_, ?_, ?_⟩
      · split <;> exact hserving
      · split <;> exact hclients
      · split <;> exact hreturned

theorem clientLine_returns {env : Effects} {command : Json} {h : Handle}
    (hline : line dump env (some command) .handle_client_data h s = .ok s') :
    s'.returned ≠ none := by
  simp only [line, clientLine] at hline
  split at hline
  · contradiction
  · obtain rfl := Except.ok.inj hline
    simp

theorem returnCode_range (commandName : String) :
    returnCode commandName = 0 ∨ returnCode commandName = 1 ∨
      returnCode commandName = 2 := by
  unfold returnCode
  repeat' split
  all_goals simp

theorem clientReturn_spec (fd : Fd) (res : Int) (s : DaemonState) :
    (clientReturn fd res s).returned = none ∧
      if res = 1 ∨ res = 2 then
        (clientReturn fd res s).serving = none ∧
          (clientReturn fd res s).clients fd = none
      else
        (clientReturn fd res s).serving = s.serving ∧
          (clientReturn fd res s).clients = s.clients ∧
            (clientReturn fd res s).process = s.process := by
  unfold clientReturn
  by_cases hone : res = 1
  · simp [hone, eraseClient, closeFd, unregisterLogSubscriber]
  · by_cases htwo : res = 2
    · simp [htwo, eraseClient, unregisterLogSubscriber]
    · simp [hone, htwo]

theorem Serves.step (hserves : Serves s)
    (hstep : step dump s label = some s') : Serves s' := by
  cases step_cases hstep with
  | line message env reader h _ hserving hnone hline =>
      obtain ⟨hserving', hclients', hcode⟩ := line_returned hline hnone
      refine ⟨?_, ?_⟩
      · rw [hserving', hclients']
        exact hserves.tracked
      · intro fd res hreturned
        rcases hcode with hnone' | ⟨rfl, command, commandName, -, -, hcode⟩
        · rw [hnone'] at hreturned
          contradiction
        · obtain ⟨rfl, rfl⟩ : h.fd = fd ∧ returnCode commandName = res := by
            simpa [hcode] using hreturned
          exact ⟨⟨h, hserving'.trans hserving, rfl⟩, returnCode_range commandName⟩
  | clientReturn fd res hreturned =>
      obtain ⟨hnone, hrest⟩ := clientReturn_spec fd res s
      refine ⟨?_, by simp [hnone]⟩
      split at hrest
      · simp [hrest.1]
      · rw [hrest.1, hrest.2.1]
        exact hserves.tracked
  | _ =>
      obtain ⟨hsame, hkept⟩ := step_serving hstep (by simp) (by simp)
      rcases hkept with ⟨hserving, hclients⟩ | ⟨hnone, htracked⟩
      · constructor
        · rw [hserving, hclients]
          exact hserves.tracked
        · rw [hsame, hserving]
          exact hserves.returned
      · exact ⟨htracked, by simp [hsame, hnone]⟩

theorem keptBy_step_iff {h : Handle} (hstep : step dump s label = some s')
    (hline : ∀ message env, label ≠ .line message env)
    (hreturn : label ≠ .clientReturn) : KeptBy h s' ↔ KeptBy h s := by
  obtain ⟨hsame, hkept⟩ := step_serving hstep hline hreturn
  rcases hkept with ⟨hserving, -⟩ | ⟨hnone, -⟩
  · simp only [KeptBy, hsame, hserving]
  · simp [KeptBy, hsame, hnone]

/-- A line leaves the code of its command's name, which keeps the client exactly
when the command only registers. -/
theorem keeps_line_iff {h sender : Handle} {message : Option Json} {env : Effects}
    {reader : Reader} (hserving : s.serving = some (reader, sender))
    (hnone : s.returned = none)
    (hline : line dump env message reader sender s = .ok s') :
    KeepsClient dump h s (.line message env) ∧ KeptBy h s' ↔
      OnlyRegisters h s (.line message env) ∧ KeptBy h s := by
  obtain ⟨hserving', -, hcode⟩ := line_returned hline hnone
  have hkeeps : KeepsClient dump h s (.line message env) := by
    intro heq
    contradiction
  have hkept : KeptBy h s := by
    intro _ fd res hreturned
    rw [hnone] at hreturned
    contradiction
  refine ⟨fun hleft => ⟨?_, hkept⟩, fun hright => ⟨hkeeps, ?_⟩⟩
  · rintro command env' commandName heq hserves' hname
    obtain ⟨rfl, rfl⟩ : message = some command ∧ env = env' := by
      simpa using heq
    obtain ⟨rfl, rfl⟩ := Prod.mk.inj
      (Option.some.inj (hserving.symm.trans hserves'))
    rcases hcode with hnone' | ⟨-, command', commandName', heq', hname', hcode⟩
    · exact absurd hnone' (clientLine_returns hline)
    · obtain rfl := Option.some.inj heq'
      obtain rfl := Except.ok.inj (hname.symm.trans hname')
      rw [← returnCode_eq_zero_iff]
      exact hleft.2 (hserving'.trans hserving) _ _ hcode
  · intro hserves' fd res hreturned
    rcases hcode with hnone' | ⟨rfl, command, commandName, rfl, hname, hcode⟩
    · rw [hnone'] at hreturned
      contradiction
    · rw [hserving', hserving] at hserves'
      obtain ⟨-, rfl⟩ := Prod.mk.inj (Option.some.inj hserves')
      obtain ⟨rfl, rfl⟩ : sender.fd = fd ∧ returnCode commandName = res := by
        simpa [hcode] using hreturned
      rw [returnCode_eq_zero_iff]
      exact hright.1 command env commandName rfl hserving hname

theorem keepsClient_clientReturn_iff {h : Handle} {fd : Fd} {res : Int}
    (hserves : Serves s) (hreturned : s.returned = some (fd, res)) :
    KeepsClient dump h s .clientReturn ↔ KeptBy h s := by
  have hresult : step dump s .clientReturn = some (clientReturn fd res s) := by
    simp only [DaemonServer.step, hreturned]
  obtain ⟨-, hrest⟩ := clientReturn_spec fd res s
  constructor
  · intro hkeeps hserving fd' res' hreturned'
    obtain ⟨rfl, rfl⟩ : fd = fd' ∧ res = res' := by
      simpa [hreturned] using hreturned'
    obtain ⟨⟨h', hserving', rfl⟩, hrange⟩ := hserves.returned fd res hreturned
    obtain rfl : h' = h := by
      rw [hserving] at hserving'
      exact (Prod.mk.inj (Option.some.inj hserving')).2.symm
    by_contra hnonzero
    rw [if_pos (hrange.resolve_left hnonzero)] at hrest
    have hsame := (hkeeps rfl hserving _ hresult).1
    have htracked := hserves.tracked h' hserving
    rw [← hsame, hrest.2] at htracked
    contradiction
  · intro hkept _ hserving s₁ hs₁
    obtain rfl := Option.some.inj (hresult.symm.trans hs₁)
    have hzero := hkept hserving fd res hreturned
    rw [if_neg (by simp [hzero])] at hrest
    rw [hrest.2.1, hrest.2.2]
    exact ⟨rfl, rfl⟩

/-- One step of the comparison: it keeps the client and leaves a code that keeps
it, exactly when it only registers and the code it found keeps the client. -/
theorem keeps_step_iff {h : Handle} (hserves : Serves s)
    (hstep : step dump s label = some s') :
    KeepsClient dump h s label ∧ KeptBy h s' ↔
      OnlyRegisters h s label ∧ KeptBy h s := by
  cases step_cases hstep with
  | line message env reader sender _ hserving hnone hline =>
      exact keeps_line_iff hserving hnone hline
  | clientReturn fd res hreturned =>
      have honly : OnlyRegisters h s .clientReturn := by
        rintro command env commandName heq
        contradiction
      have hkept : KeptBy h (clientReturn fd res s) := by
        intro _ fd' res' hreturned'
        rw [(clientReturn_spec fd res s).1] at hreturned'
        contradiction
      rw [keepsClient_clientReturn_iff hserves hreturned]
      exact ⟨fun hleft => ⟨honly, hleft.1⟩, fun hright => ⟨hright.2, hkept⟩⟩
  | _ =>
      have hiff := keptBy_step_iff (h := h) hstep (by simp) (by simp)
      simp [KeepsClient, OnlyRegisters, hiff]

/-- Along a run the two agree: the loop keeps the client and leaves a code that
keeps it, exactly when only registering commands come and the code pending at
the start keeps it. -/
theorem keeps_run_iff {h : Handle} {labels : List Label} (hserves : Serves s)
    (hrun : execute (step dump) s labels = some s') :
    AllSteps (step dump) (KeepsClient dump h) s labels ∧ KeptBy h s' ↔
      AllSteps (step dump) (OnlyRegisters h) s labels ∧ KeptBy h s := by
  induction labels generalizing s with
  | nil =>
      obtain rfl : s = s' := by simpa [execute] using hrun
      simp [AllSteps]
  | cons label labels ih =>
      obtain ⟨next, hnext, hrest⟩ : ∃ next, step dump s label = some next ∧
          execute (step dump) next labels = some s' := by
        simpa [execute, Option.bind_eq_some_iff] using hrun
      have hhead := keeps_step_iff (h := h) hserves hnext
      have htail := ih (hserves.step hnext) hrest
      simp only [AllSteps, hnext, Option.some.injEq, forall_eq']
      constructor
      · rintro ⟨⟨hkeeps, hkeepsRest⟩, hkept⟩
        obtain ⟨honlyRest, hkeptNext⟩ := htail.mp ⟨hkeepsRest, hkept⟩
        obtain ⟨honly, hkeptStart⟩ := hhead.mp ⟨hkeeps, hkeptNext⟩
        exact ⟨⟨honly, honlyRest⟩, hkeptStart⟩
      · rintro ⟨⟨honly, honlyRest⟩, hkeptStart⟩
        obtain ⟨hkeeps, hkeptNext⟩ := hhead.mpr ⟨honly, hkeptStart⟩
        obtain ⟨hkeepsRest, hkept⟩ := htail.mpr ⟨honlyRest, hkeptNext⟩
        exact ⟨⟨hkeeps, hkeepsRest⟩, hkept⟩

theorem KeptBy.of_returned {h : Handle} (hnone : s.returned = none) :
    KeptBy h s := by
  intro _ fd res hreturned
  rw [hnone] at hreturned
  contradiction

theorem serves_of_reachable (hreach : Reachable (step dump) initial s) :
    Serves s :=
  hreach.invariant (fun hserves hstep => hserves.step hstep)
    ⟨by simp [initial], by simp [initial]⟩

/-- From any reachable state on, whatever the connection has registered before,
it survives the processing of every command that comes on it exactly when each
of them is itself a registering one. -/
theorem keepsClient_iff_onlyRegisters {h : Handle} {labels : List Label}
    (hreach : Reachable (step dump) initial s) (hstart : s.returned = none)
    (hrun : execute (step dump) s labels = some s') (hend : s'.returned = none) :
    AllSteps (step dump) (KeepsClient dump h) s labels ↔
      AllSteps (step dump) (OnlyRegisters h) s labels := by
  have hiff := keeps_run_iff (h := h) (serves_of_reachable hreach) hrun
  have hkeptStart : KeptBy h s := KeptBy.of_returned hstart
  have hkeptEnd : KeptBy h s' := KeptBy.of_returned hend
  simpa [hkeptStart, hkeptEnd] using hiff

end

/-- A client connects, sends the given commands one after the other, and the
loop reacts to each. -/
def clientSends (names : List String) : List Label :=
  names.flatMap fun name =>
    [.line (some (bareCommand name)) uneventful, .clientReturn]

def clientConnects : List Label :=
  [.acceptClient, .read .handle_client_data 1]

/-- A native host that registers once more is kept. -/
theorem nativeHost_registers_again :
    ∃ s s', execute (step fun _ => "") initial
        (clientConnects ++ clientSends ["registerNativeHost"]) = some s ∧
      execute (step fun _ => "") s (clientSends ["registerNativeHost"]) =
        some s' ∧
      AllSteps (step fun _ => "") (KeepsClient (fun _ => "") ⟨1, ⟨1, .client⟩⟩) s
        (clientSends ["registerNativeHost"]) := by
  have honly : ∀ (s : DaemonState) (h : Handle),
      AllSteps (step fun _ => "") (OnlyRegisters h) s
        (clientSends ["registerNativeHost"]) := by
    intro s h next _
    refine ⟨?_, fun _ _ => ⟨?_, trivial⟩⟩
    · rintro command env commandName heq - hname
      cases heq
      obtain rfl : "registerNativeHost" = commandName := Except.ok.inj hname
      decide
    · rintro command env commandName heq
      contradiction
  obtain ⟨s, hreach, hrun, hidle⟩ : ∃ s,
      execute (step fun _ => "") initial
        (clientConnects ++ clientSends ["registerNativeHost"]) = some s ∧
      execute (step fun _ => "") s (clientSends ["registerNativeHost"]) =
        some s ∧ s.returned = none := ⟨_, rfl, rfl, rfl⟩
  exact ⟨s, s, hreach, hrun, (keepsClient_iff_onlyRegisters
    (Reachable.of_execute hreach) hidle hrun hidle).mpr (honly _ _)⟩

/-- The connection is recorded for one of the persistent roles. -/
def IsRegistered (h : Handle) (s : DaemonState) : Prop :=
  s.g_windowExtensionSocket = some h ∨ s.g_nativeHostSocket = some h ∨
    s.g_logSubscribers h.fd = some h.connection

/-- The first message the native host passes on closes its registered
connection. -/
theorem nativeHost_not_kept :
    ∃ s h labels s', Reachable (step fun _ => "") initial s ∧
      IsRegistered h s ∧ s.returned = none ∧
      execute (step fun _ => "") s labels = some s' ∧ s'.returned = none ∧
      h.Live s.process ∧ ¬ h.Live s'.process ∧
      ¬ AllSteps (step fun _ => "") (KeepsClient (fun _ => "") h) s labels := by
  obtain ⟨s, s', hrun, hregistered, hidle, hnext, hend, hopen, hclosed, hnot⟩ :
      ∃ s s', execute (step fun _ => "") initial
          (clientConnects ++ clientSends ["registerNativeHost"]) = some s ∧
        IsRegistered ⟨1, ⟨1, .client⟩⟩ s ∧ s.returned = none ∧
        execute (step fun _ => "") s (clientSends ["focusAck"]) = some s' ∧
        s'.returned = none ∧ s.process.fds.lookup 1 = some ⟨1, .client⟩ ∧
        s'.process.fds.lookup 1 = none ∧
        ¬ AllSteps (step fun _ => "") (KeepsClient (fun _ => "")
          ⟨1, ⟨1, .client⟩⟩) s (clientSends ["focusAck"]) := by
    refine ⟨_, _, rfl, Or.inr (Or.inl rfl), rfl, rfl, rfl, rfl, rfl, fun hall => ?_⟩
    obtain ⟨-, hrest⟩ := hall _ rfl
    obtain ⟨hkeeps, -⟩ := hrest _ rfl
    obtain ⟨htracked, -⟩ := hkeeps rfl rfl _ rfl
    cases htracked
  refine ⟨s, _, _, s', Reachable.of_execute hrun, hregistered, hidle, hnext, hend,
    hopen, fun hlive => ?_, hnot⟩
  simp [Handle.Live, hclosed] at hlive

end DaemonServer

end AutomateLinux
