import AutomateLinux.AppShutdown

/-!
# Waiting for ports

A request to restart an app stops its services and waits until nobody listens on
their ports any more.  The wait polls every 200 ms, for 10 s at most; from the poll at
2600 ms on, what still listens is killed.  Only then are the services started, and
each needs its ports for itself.
-/

namespace AutomateLinux

namespace PortRelease

open ExtraApps AppRun

/-- A process that listens on ports: for how many milliseconds it goes on doing so,
unless it never ends, and for how many at most once it has been killed. -/
structure Listener where
  service : Option String
  ports : List Int
  left : Option ℕ
  reaped : ℕ
deriving DecidableEq

namespace Listener

/-- Some time passes. -/
def elapse (ms : ℕ) (p : Listener) : Option Listener :=
  match p.left with
  | none => some p
  | some left => if left < ms then none else some { p with left := some (left - ms) }

def kill (p : Listener) : Listener :=
  { p with left := some (p.left.elim p.reaped (min p.reaped)) }

def listensOn (port : Int) (p : Listener) : Bool := decide (port ∈ p.ports)

/-- It is gone in the first time by itself or, once killed, in the second. -/
def Yields (ms killedMs : ℕ) (p : Listener) : Prop :=
  (∃ left, p.left = some left ∧ left < ms) ∨ p.reaped < killedMs

/-- What a process has become in the meantime. -/
structure Becomes (p q : Listener) : Prop where
  service : q.service = p.service
  ports : q.ports = p.ports
  reaped : q.reaped = p.reaped
  left : ∀ left, p.left = some left → ∃ left', q.left = some left' ∧ left' ≤ left

end Listener

def elapse (ms : ℕ) (processes : List Listener) : List Listener :=
  processes.filterMap (Listener.elapse ms)

def isPortListening (port : Int) (processes : List Listener) : Bool :=
  processes.any (Listener.listensOn port)

def killProcessOnPort (port : Int) (processes : List Listener) : List Listener :=
  processes.map fun p => if p.listensOn port then p.kill else p

def pollIntervalMs : ℕ := 200

/-- The loop, from the time that has elapsed. -/
def pollPort (port : Int) (timeoutMs elapsedMs : ℕ) (processes : List Listener) : List Listener :=
  if isPortListening port processes && decide (elapsedMs < timeoutMs) then
    let processes := if 2500 < elapsedMs then killProcessOnPort port processes else processes
    pollPort port timeoutMs (elapsedMs + pollIntervalMs) (elapse pollIntervalMs processes)
  else processes
termination_by timeoutMs - elapsedMs
decreasing_by simp_all [pollIntervalMs]; omega

def waitForPortRelease (port : Int) (timeoutMs : ℕ) (processes : List Listener) :
    Bool × List Listener :=
  let processes := pollPort port timeoutMs 0 processes
  (!isPortListening port processes, processes)

namespace Listener

variable {port : Int} {ms a b : ℕ} {p q r : Listener}

theorem Becomes.refl (p : Listener) : Becomes p p :=
  ⟨rfl, rfl, rfl, fun left hleft => ⟨left, hleft, le_rfl⟩⟩

theorem Becomes.trans (hpq : Becomes p q) (hqr : Becomes q r) : Becomes p r := by
  refine ⟨hqr.service.trans hpq.service, hqr.ports.trans hpq.ports,
    hqr.reaped.trans hpq.reaped, fun left hleft => ?_⟩
  obtain ⟨middle, hmiddle, hle⟩ := hpq.left left hleft
  obtain ⟨last, hlast, hle'⟩ := hqr.left middle hmiddle
  exact ⟨last, hlast, hle'.trans hle⟩

theorem Becomes.listensOn (hpq : Becomes p q) (port : Int) :
    q.listensOn port = p.listensOn port := by
  unfold Listener.listensOn
  rw [hpq.ports]

theorem Becomes.yields (hpq : Becomes p q) (hyields : p.Yields a b) : q.Yields a b := by
  rcases hyields with ⟨left, hleft, hlt⟩ | hlt
  · obtain ⟨left', hleft', hle⟩ := hpq.left left hleft
    exact Or.inl ⟨left', hleft', hle.trans_lt hlt⟩
  · exact Or.inr (hpq.reaped ▸ hlt)

theorem becomes_kill (p : Listener) : Becomes p p.kill := by
  refine ⟨rfl, rfl, rfl, fun left hleft => ⟨min p.reaped left, ?_, min_le_right _ _⟩⟩
  simp [kill, hleft]

theorem elapse_eq_some_iff : p.elapse ms = some q ↔
    (p.left = none ∧ q = p) ∨
      ∃ left, p.left = some left ∧ ms ≤ left ∧ q = { p with left := some (left - ms) } := by
  unfold elapse
  cases hleft : p.left with
  | none => simp [eq_comm]
  | some left =>
      dsimp only
      split
      · simp
        omega
      · simp [eq_comm]
        omega

theorem becomes_of_elapse (helapse : p.elapse ms = some q) : Becomes p q := by
  rcases elapse_eq_some_iff.mp helapse with ⟨-, rfl⟩ | ⟨left, hleft, -, rfl⟩
  · exact Becomes.refl q
  · refine ⟨rfl, rfl, rfl, fun left' hleft' => ⟨left - ms, rfl, ?_⟩⟩
    obtain rfl : left = left' := Option.some.inj (hleft.symm.trans hleft')
    exact Nat.sub_le _ _

/-- A process yields if what is left of it does later. -/
theorem forall_elapse_yields_iff :
    (∀ q, p.elapse ms = some q → q.Yields a b) ↔ p.Yields (ms + a) b := by
  unfold Yields elapse
  cases hleft : p.left with
  | none => simp [hleft]
  | some left =>
      dsimp only
      split
      · simp
        omega
      · simp
        omega

theorem yields_kill_iff : p.kill.Yields (ms + a) a ↔ p.Yields (ms + a) (ms + a) := by
  unfold Yields kill
  cases hleft : p.left <;> simp <;> omega

end Listener

section

variable {port other : Int} {ms a b n m timeoutMs elapsedMs : ℕ}
  {processes after : List Listener} {p : Listener}

theorem isPortListening_eq_false_iff :
    isPortListening port processes = false ↔ ∀ p ∈ processes, p.listensOn port = false := by
  simp [isPortListening]

/-- Every process that is there afterwards was there before. -/
def Remains (processes after : List Listener) : Prop :=
  ∀ q ∈ after, ∃ p ∈ processes, p.Becomes q

theorem Remains.refl (processes : List Listener) : Remains processes processes :=
  fun q hq => ⟨q, hq, .refl q⟩

theorem Remains.trans {last : List Listener} (hafter : Remains processes after)
    (hlast : Remains after last) : Remains processes last := by
  intro r hr
  obtain ⟨q, hq, hqr⟩ := hlast r hr
  obtain ⟨p, hp, hpq⟩ := hafter q hq
  exact ⟨p, hp, hpq.trans hqr⟩

theorem Remains.free (hafter : Remains processes after)
    (hfree : isPortListening port processes = false) : isPortListening port after = false := by
  rw [isPortListening_eq_false_iff] at hfree ⊢
  intro q hq
  obtain ⟨p, hp, hpq⟩ := hafter q hq
  rw [hpq.listensOn, hfree p hp]

theorem remains_elapse (ms : ℕ) (processes : List Listener) :
    Remains processes (elapse ms processes) := by
  intro q hq
  obtain ⟨p, hp, hpq⟩ := List.mem_filterMap.mp hq
  exact ⟨p, hp, Listener.becomes_of_elapse hpq⟩

theorem remains_killProcessOnPort (port : Int) (processes : List Listener) :
    Remains processes (killProcessOnPort port processes) := by
  intro q hq
  obtain ⟨p, hp, rfl⟩ := List.mem_map.mp hq
  refine ⟨p, hp, ?_⟩
  split
  · exact Listener.becomes_kill p
  · exact .refl p

theorem remains_pollPort (port : Int) (timeoutMs elapsedMs : ℕ) (processes : List Listener) :
    Remains processes (pollPort port timeoutMs elapsedMs processes) := by
  fun_induction pollPort port timeoutMs elapsedMs processes with
  | case1 elapsedMs processes _ killed ih =>
      refine Remains.trans ?_ ih
      refine Remains.trans ?_ (remains_elapse _ _)
      dsimp only [killed]
      split
      · exact remains_killProcessOnPort port processes
      · exact .refl processes
  | case2 => exact .refl _

/-! ## When the port is free -/

theorem pollPort_of_free (hfree : isPortListening port processes = false) :
    pollPort port timeoutMs elapsedMs processes = processes := by
  rw [pollPort, hfree]
  rfl

theorem pollPort_of_timeout (htimeout : timeoutMs ≤ elapsedMs) :
    pollPort port timeoutMs elapsedMs processes = processes := by
  rw [pollPort, decide_eq_false htimeout.not_gt, Bool.and_false]
  rfl

theorem pollPort_of_listening (hlistens : isPortListening port processes = true)
    (hbefore : elapsedMs < timeoutMs) :
    pollPort port timeoutMs elapsedMs processes =
      pollPort port timeoutMs (elapsedMs + pollIntervalMs) (elapse pollIntervalMs
        (if 2500 < elapsedMs then killProcessOnPort port processes else processes)) := by
  rw [pollPort, hlistens, decide_eq_true hbefore]
  rfl

/-- Every process that listens on the port yields. -/
def AllYield (port : Int) (ms killedMs : ℕ) (processes : List Listener) : Prop :=
  ∀ p ∈ processes, p.listensOn port = true → p.Yields ms killedMs

theorem Remains.allYield (hafter : Remains processes after)
    (hyields : AllYield port a b processes) : AllYield port a b after := by
  intro q hq hlistens
  obtain ⟨p, hp, hpq⟩ := hafter q hq
  exact hpq.yields (hyields p hp (hpq.listensOn port ▸ hlistens))

theorem allYield_of_free (hfree : isPortListening port processes = false) :
    AllYield port a b processes := by
  intro p hp hlistens
  rw [isPortListening_eq_false_iff.mp hfree p hp] at hlistens
  cases hlistens

theorem not_allYield_zero (hlistens : isPortListening port processes = true) :
    ¬ AllYield port 0 0 processes := by
  obtain ⟨p, hp, hport⟩ := List.any_eq_true.mp hlistens
  intro hyield
  rcases hyield p hp hport with ⟨left, -, hlt⟩ | hlt
  · exact Nat.not_lt_zero _ hlt
  · exact Nat.not_lt_zero _ hlt

theorem allYield_elapse_iff :
    AllYield port a b (elapse ms processes) ↔ AllYield port (ms + a) b processes := by
  constructor
  · intro hyield p hp hlistens
    refine Listener.forall_elapse_yields_iff.mp fun q hq => ?_
    refine hyield q (List.mem_filterMap.mpr ⟨p, hp, hq⟩) ?_
    rw [(Listener.becomes_of_elapse hq).listensOn, hlistens]
  · intro hyield q hq hlistens
    obtain ⟨p, hp, hpq⟩ := List.mem_filterMap.mp hq
    rw [(Listener.becomes_of_elapse hpq).listensOn] at hlistens
    exact Listener.forall_elapse_yields_iff.mpr (hyield p hp hlistens) q hpq

theorem allYield_killProcessOnPort_iff :
    AllYield port (ms + a) a (killProcessOnPort port processes) ↔
      AllYield port (ms + a) (ms + a) processes := by
  unfold AllYield killProcessOnPort
  rw [List.forall_mem_map]
  refine forall₂_congr fun p _ => ?_
  by_cases hlistens : p.listensOn port = true
  · rw [if_pos hlistens, ← Listener.yields_kill_iff, (Listener.becomes_kill p).listensOn]
  · rw [if_neg hlistens]
    exact ⟨fun _ h => absurd h hlistens, fun _ h => absurd h hlistens⟩

theorem free_pollPort_iff_of_free (hfree : isPortListening port processes = false) :
    isPortListening port (pollPort port timeoutMs elapsedMs processes) = false ↔
      AllYield port a b processes := by
  rw [pollPort_of_free hfree]
  exact iff_of_true hfree (allYield_of_free hfree)

/-- From the first kill on, `n` polls before the timeout. -/
theorem free_pollPort_killing_iff (hlate : 2500 < elapsedMs)
    (hpolls : timeoutMs = elapsedMs + 200 * n) :
    isPortListening port (pollPort port timeoutMs elapsedMs processes) = false ↔
      AllYield port (200 * n) (200 * n) processes := by
  induction n generalizing elapsedMs processes with
  | zero =>
      cases hlistens : isPortListening port processes with
      | false => exact free_pollPort_iff_of_free hlistens
      | true =>
          rw [pollPort_of_timeout (by omega)]
          simpa [hlistens] using not_allYield_zero hlistens
  | succ n ih =>
      cases hlistens : isPortListening port processes with
      | false => exact free_pollPort_iff_of_free hlistens
      | true =>
          have hinterval : 200 * (n + 1) = pollIntervalMs + 200 * n := by
            unfold pollIntervalMs
            omega
          rw [pollPort_of_listening hlistens (by omega), if_pos hlate, ih (by omega) (by omega),
            allYield_elapse_iff, hinterval]
          exact allYield_killProcessOnPort_iff

/-- Before the first kill, which is `m` polls away. -/
theorem free_pollPort_iff (hfirst : 2600 = elapsedMs + 200 * m)
    (hpolls : timeoutMs = 2600 + 200 * n) :
    isPortListening port (pollPort port timeoutMs elapsedMs processes) = false ↔
      AllYield port (200 * m + 200 * n) (200 * n) processes := by
  induction m generalizing elapsedMs processes with
  | zero =>
      rw [Nat.mul_zero, Nat.zero_add]
      exact free_pollPort_killing_iff (by omega) (by omega)
  | succ m ih =>
      cases hlistens : isPortListening port processes with
      | false => exact free_pollPort_iff_of_free hlistens
      | true =>
          have hinterval : 200 * (m + 1) + 200 * n = pollIntervalMs + (200 * m + 200 * n) := by
            unfold pollIntervalMs
            omega
          rw [pollPort_of_listening hlistens (by omega), if_neg (by omega), ih (by omega),
            allYield_elapse_iff, hinterval]

/-- The default of `timeoutMs`. -/
def defaultTimeoutMs : ℕ := 10000

/-- Waiting frees the port exactly if every process that listens there is gone within ten
seconds by itself, or within the 7.4 seconds that are left after the first kill. -/
theorem waitForPortRelease_iff :
    (waitForPortRelease port defaultTimeoutMs processes).1 = true ↔
      AllYield port 10000 7400 processes := by
  unfold waitForPortRelease
  rw [Bool.not_eq_true']
  exact free_pollPort_iff (m := 13) (n := 37) rfl rfl

theorem free_waitForPortRelease
    (hyields : AllYield port 10000 7400 processes) :
    isPortListening port (waitForPortRelease port defaultTimeoutMs processes).2 = false :=
  (Bool.not_eq_true' _).mp (waitForPortRelease_iff.mpr hyields)

/-! ## Services -/

/-- The processes, and the services that found a port of theirs in use. -/
structure Machine where
  processes : List Listener
  portInUse : List String

/-- What is known of a service: its ports, for how long its process goes on once it has
been killed, and how long it takes to be stopped. -/
structure Service where
  ports : List Int
  reaped : ℕ
  stopMs : ℕ

variable (services : String → Service) (serviceName : String)

def stopService (s : Machine) : Machine :=
  { s with
    processes := elapse (services serviceName).stopMs
      (s.processes.filter fun p => p.service ≠ some serviceName) }

/-- The process of a service. -/
def Service.listener (service : Service) (serviceName : String) : Listener :=
  ⟨some serviceName, service.ports, none, service.reaped⟩

/-- A service that finds a port of its own in use ends at once. -/
def startService (s : Machine) : Machine :=
  let service := services serviceName
  if service.ports.any fun port => isPortListening port s.processes then
    { s with portInUse := s.portInUse ++ [serviceName] }
  else
    { s with processes := s.processes ++ [service.listener serviceName] }

def Machine.perform (s : Machine) : AppEffect → Machine
  | .stopService serviceName => stopService services serviceName s
  | .restartService serviceName =>
      startService services serviceName (stopService services serviceName s)
  | .getSetting _ => s
  | .killProcessOnPort port => { s with processes := killProcessOnPort port s.processes }
  | .waitForPortRelease port =>
      { s with processes := (waitForPortRelease port defaultTimeoutMs s.processes).2 }

/-- What a request does. -/
def Machine.run {α : Type} (s : Machine) (x : AppRun α) : Machine :=
  x.2.foldl (Machine.perform services) s

end

section

variable {services : String → Service} {s : Machine} {serviceName : String} {port : Int}

theorem run_bind {α β : Type} {x : AppRun α} {a : α} (hx : x.1 = .ok a) (f : α → AppRun β) :
    s.run services (x >>= f) = (s.run services x).run services (f a) := by
  unfold Machine.run
  rw [bind_ok hx, List.foldl_append]

@[simp] theorem run_pure {α : Type} (a : α) : s.run services (pure a : AppRun α) = s := rfl

@[simp] theorem run_perform (effect : AppEffect) :
    s.run services (AppRun.perform effect) = s.perform services effect := rfl

theorem remains_stopService :
    Remains s.processes (stopService services serviceName s).processes := by
  refine Remains.trans ?_ (remains_elapse _ _)
  exact fun q hq => ⟨q, List.mem_of_mem_filter hq, .refl q⟩

theorem service_ne_of_mem_stopService {p : Listener}
    (hp : p ∈ (stopService services serviceName s).processes) : p.service ≠ some serviceName := by
  obtain ⟨q, hq, hpq⟩ := List.mem_filterMap.mp hp
  rw [(Listener.becomes_of_elapse hpq).service]
  exact of_decide_eq_true (List.mem_filter.mp hq).2

/-- The ports of the service are free. -/
def CanStart (services : String → Service) (serviceName : String) (s : Machine) : Prop :=
  ∀ port ∈ (services serviceName).ports, isPortListening port s.processes = false

theorem startService_of_canStart (hfree : CanStart services serviceName s) :
    startService services serviceName s =
      { s with processes := s.processes ++ [(services serviceName).listener serviceName] } := by
  have hnone : ((services serviceName).ports.any fun port =>
      isPortListening port s.processes) = false := by
    rw [List.any_eq_false]
    intro port hport
    rw [hfree port hport]
    exact Bool.false_ne_true
  unfold startService
  dsimp only
  rw [hnone]
  rfl

/-- The service runs and listens on its ports. -/
def Running (services : String → Service) (serviceName : String) (s : Machine) : Prop :=
  ∃ p ∈ s.processes, p.service = some serviceName ∧ p.ports = (services serviceName).ports ∧
    p.left = none

theorem CanStart.restartService (hfree : CanStart services serviceName s) :
    s.perform services (.restartService serviceName) =
      { s with
        processes := (stopService services serviceName s).processes ++
          [(services serviceName).listener serviceName] } :=
  startService_of_canStart fun port hport => remains_stopService.free (hfree port hport)

theorem CanStart.running (hfree : CanStart services serviceName s) :
    Running services serviceName (s.perform services (.restartService serviceName)) := by
  rw [hfree.restartService]
  exact ⟨_, List.mem_append_right _ List.mem_cons_self, rfl, rfl, rfl⟩

/-- Starting another service leaves a service running. -/
theorem Running.restartService {other : String} (hrunning : Running services serviceName s)
    (hfree : CanStart services other s) :
    Running services serviceName (s.perform services (.restartService other)) := by
  rcases eq_or_ne serviceName other with rfl | hne
  · exact hfree.running
  · obtain ⟨p, hp, hservice, hports, hleft⟩ := hrunning
    rw [hfree.restartService]
    refine ⟨p, List.mem_append_left _ (List.mem_filterMap.mpr ⟨p, ?_, ?_⟩), hservice, hports, hleft⟩
    · refine List.mem_filter.mpr ⟨hp, decide_eq_true ?_⟩
      rw [hservice]
      exact fun heq => hne (Option.some.inj heq)
    · exact Listener.elapse_eq_some_iff.mpr (Or.inl ⟨hleft, rfl⟩)

/-! ## The wait of a request -/

variable {weight : String → String} {settings : CollatedTable weight String} {key mode : String}
  {config : AppConfig}

/-- What a wait leaves: nothing new, and the ports of the settings free. -/
structure Waited (settings : CollatedTable weight String) (keys : List String)
    (s s' : Machine) : Prop where
  portInUse : s'.portInUse = s.portInUse
  remains : Remains s.processes s'.processes
  free : ∀ key ∈ keys, ∀ port, stoi (getSetting settings key) = .ok port →
    isPortListening port s'.processes = false

theorem Waited.trans {keys keys' : List String} {s' s'' : Machine}
    (hfirst : Waited settings keys s s') (hthen : Waited settings keys' s' s'') :
    Waited settings (keys ++ keys') s s'' := by
  refine ⟨hthen.portInUse.trans hfirst.portInUse, hfirst.remains.trans hthen.remains, ?_⟩
  intro key hkey port hport
  rcases List.mem_append.mp hkey with hkey | hkey
  · exact hthen.remains.free (hfirst.free key hkey port hport)
  · exact hthen.free key hkey port hport

/-- Whoever listens on the ports of the settings yields. -/
def PortsYield (settings : CollatedTable weight String) (keys : List String)
    (s : Machine) : Prop :=
  ∀ key ∈ keys, ∀ port, stoi (getSetting settings key) = .ok port →
    AllYield port 10000 7400 s.processes

variable (services) in
theorem waited_usePort (hyields : PortsYield settings [key] s)
    (hreadable : ReadablePort (getSetting settings key)) :
    Waited settings [key] s (s.run services (usePort settings key .waitForPortRelease)) := by
  unfold usePort
  rw [run_bind rfl]
  dsimp only
  split
  · rename_i hempty
    refine ⟨rfl, .refl _, fun key' hkey' port hport => ?_⟩
    obtain rfl : key' = key := List.mem_singleton.mp hkey'
    rw [hempty] at hport
    cases hport
  · rename_i hne
    obtain ⟨port, hport⟩ := hreadable.resolve_left hne
    rw [ofExcept_bind hport]
    refine ⟨rfl, remains_pollPort _ _ _ _, fun key' hkey' port' hport' => ?_⟩
    obtain rfl : key' = key := List.mem_singleton.mp hkey'
    obtain rfl : port = port' := Except.ok.inj (hport.symm.trans hport')
    exact free_waitForPortRelease (hyields _ hkey' _ hport)

variable (services) in
theorem waited_usePorts (hyields : PortsYield settings (portKeys config mode) s)
    (hreadable : ∀ key ∈ portKeys config mode, ReadablePort (getSetting settings key)) :
    Waited settings (portKeys config mode) s
      (s.run services (usePorts settings config mode .waitForPortRelease)) := by
  unfold portKeys at hreadable hyields ⊢
  obtain ⟨hclient, hserver⟩ := List.forall_mem_cons.mp hreadable
  obtain ⟨hyieldClient, hyieldServer⟩ := List.forall_mem_cons.mp hyields
  obtain ⟨_, hdone⟩ := (completes_usePort_iff .waitForPortRelease).mpr hclient
  have hfirst := waited_usePort services (List.forall_mem_singleton.mpr hyieldClient) hclient
  unfold usePorts
  rw [run_bind hdone]
  split
  · rename_i hhas
    rw [if_pos hhas] at hserver hyieldServer
    refine hfirst.trans (waited_usePort services ?_ (hserver _ List.mem_cons_self))
    exact fun key hkey port hport => hfirst.remains.allYield (hyieldServer key hkey port hport)
  · exact hfirst

/-! ## Restarting -/

variable {r : Registry weight} {appId : String}

/-- The services that a request for one mode restarts, the server's first. -/
def restartedServices (config : AppConfig) (appId mode : String) : List String :=
  (if hasServerService config then [resolveServiceName config.serverServiceTemplate appId mode]
    else []) ++
  (if config.clientServiceTemplate ≠ "" then
    [resolveServiceName config.clientServiceTemplate appId mode] else [])

theorem run_handleRestartApp {outcome : RestartOutcome} {request : Json}
    (hasks : Asks request "dev" appId mode) (hoffers : Offers r appId mode config)
    (hreadable : ∀ key ∈ portKeys config mode, ReadablePort (getSetting r.system_settings key)) :
    s.run services (handleRestartApp outcome request r) =
      (restartedServices config appId mode).foldl
        (fun s serviceName => s.perform services (.restartService serviceName))
        (((restartedServices config appId mode).reverse.foldl
          (fun s serviceName => stopService services serviceName s) s).run services
            (usePorts r.system_settings config mode .waitForPortRelease)) := by
  obtain ⟨_, hdone⟩ := (completes_usePorts_iff .waitForPortRelease).mpr hreadable
  unfold handleRestartApp restartedServices
  rw [hasks.app]
  dsimp only
  rw [ofExcept_bind (getString_string appId), ofExcept_bind hasks.mode, hoffers.registered]
  dsimp only
  rw [if_neg hoffers.available]
  split_ifs
  · rw [run_bind rfl, run_bind rfl, run_bind hdone]
    rfl
  · rw [run_bind rfl, run_bind hdone]
    rfl
  · rw [run_bind rfl, run_bind hdone]
    rfl
  · rw [run_bind hdone]
    rfl

/-- The processes that do not belong to one of the services. -/
def foreign (names : List String) (processes : List Listener) : List Listener :=
  processes.filter fun p => decide (∀ name ∈ names, p.service ≠ some name)

variable (services) in
theorem stopServices_spec (names : List String) (s : Machine) :
    (names.foldl (fun s name => stopService services name s) s).portInUse = s.portInUse ∧
      Remains (foreign names s.processes)
        (names.foldl (fun s name => stopService services name s) s).processes := by
  induction names generalizing s with
  | nil => exact ⟨rfl, by simpa [foreign] using Remains.refl s.processes⟩
  | cons name names ih =>
      obtain ⟨hportInUse, hremains⟩ := ih (stopService services name s)
      refine ⟨hportInUse, Remains.trans ?_ hremains⟩
      intro q hq
      obtain ⟨hq, hother⟩ := List.mem_filter.mp hq
      obtain ⟨p, hp, hpq⟩ := remains_stopService q hq
      refine ⟨p, List.mem_filter.mpr ⟨hp, decide_eq_true ?_⟩, hpq⟩
      rw [List.forall_mem_cons, ← hpq.service]
      exact ⟨service_ne_of_mem_stopService hq, of_decide_eq_true hother⟩

/-- Services that have no port in common. -/
def PortsApart (services : String → Service) (name name' : String) : Prop :=
  ∀ port ∈ (services name).ports, port ∉ (services name').ports

instance (services : String → Service) (name name' : String) :
    Decidable (PortsApart services name name') :=
  inferInstanceAs (Decidable (∀ port ∈ (services name).ports, port ∉ (services name').ports))

theorem CanStart.of_restartService {name : String} (hfree : CanStart services serviceName s)
    (hother : CanStart services name s) (hapart : PortsApart services serviceName name) :
    CanStart services name (s.perform services (.restartService serviceName)) := by
  intro port hport
  rw [hfree.restartService]
  refine isPortListening_eq_false_iff.mpr fun p hp => ?_
  rcases List.mem_append.mp hp with hold | hnew
  · exact isPortListening_eq_false_iff.mp (remains_stopService.free (hother port hport)) p hold
  · obtain rfl := List.mem_singleton.mp hnew
    exact decide_eq_false fun hmem => hapart port hmem hport

variable (services) in
theorem restartServices_spec {names : List String}
    (hfree : ∀ name ∈ names, CanStart services name s)
    (hapart : names.Pairwise (PortsApart services)) :
    (names.foldl (fun s name => s.perform services (.restartService name)) s).portInUse =
        s.portInUse ∧
      ∀ name, name ∈ names ∨ Running services name s →
        Running services name
          (names.foldl (fun s name => s.perform services (.restartService name)) s) := by
  induction names generalizing s with
  | nil => exact ⟨rfl, fun name hname => hname.resolve_left (List.not_mem_nil)⟩
  | cons first names ih =>
      obtain ⟨hfirst, hrest⟩ := List.forall_mem_cons.mp hfree
      obtain ⟨hapartFirst, hapartRest⟩ := List.pairwise_cons.mp hapart
      obtain ⟨hportInUse, hrunning⟩ := ih
        (fun name hname => hfirst.of_restartService (hrest name hname) (hapartFirst name hname))
        hapartRest
      refine ⟨hportInUse.trans ?_, fun name hname => hrunning name ?_⟩
      · rw [hfirst.restartService]
      · rcases hname with hname | hname
        · rcases List.mem_cons.mp hname with rfl | hname
          · exact Or.inr hfirst.running
          · exact Or.inl hname
        · exact Or.inr (hname.restartService hfirst)

/-- A restart finds no port in use and leaves the services listening, if the other
processes on the ports it looks up go by themselves or soon after they are killed. -/
theorem restarted_of_portsYield {outcome : RestartOutcome} {request : Json}
    (hasks : Asks request "dev" appId mode) (hoffers : Offers r appId mode config)
    (hreadable : ∀ key ∈ portKeys config mode, ReadablePort (getSetting r.system_settings key))
    (hports : ∀ name ∈ restartedServices config appId mode, ∀ port ∈ (services name).ports,
      ∃ key ∈ portKeys config mode, stoi (getSetting r.system_settings key) = .ok port)
    (hapart : (restartedServices config appId mode).Pairwise (PortsApart services))
    (hyields : PortsYield r.system_settings (portKeys config mode)
      { s with processes := foreign (restartedServices config appId mode) s.processes }) :
    (s.run services (handleRestartApp outcome request r)).portInUse = s.portInUse ∧
      ∀ name ∈ restartedServices config appId mode,
        Running services name (s.run services (handleRestartApp outcome request r)) := by
  rw [run_handleRestartApp hasks hoffers hreadable]
  obtain ⟨hstopped, hremains⟩ := stopServices_spec services
    (restartedServices config appId mode).reverse s
  have hforeign : foreign (restartedServices config appId mode).reverse s.processes =
      foreign (restartedServices config appId mode) s.processes := by
    simp [foreign]
  rw [hforeign] at hremains
  have hwaited := waited_usePorts services
    (fun key hkey port hport => hremains.allYield (hyields key hkey port hport)) hreadable
  obtain ⟨hportInUse, hrunning⟩ := restartServices_spec services (fun name hname =>
    (fun port hport => by
      obtain ⟨key, hkey, hread⟩ := hports name hname port hport
      exact hwaited.free key hkey port hread : CanStart services name _)) hapart
  refine ⟨hportInUse.trans (hwaited.portInUse.trans hstopped), fun name hname => ?_⟩
  exact hrunning name (Or.inl hname)

end

/-- The dashboard's ports in dev mode, set by hand. -/
def dashboardPorts : Registry id where
  system_settings := ⟨[("port_dashboard-dev", "3007"), ("port_dashboard-bridge-dev", "3501")],
    by decide⟩
  extra_apps := CollatedTable.empty

def dashboardServices (serviceName : String) : Service :=
  if serviceName = "dashboard-bridge" then ⟨[3501], 300, 2000⟩ else ⟨[3007], 300, 2000⟩

/-- A server that somebody has started by hand, and that has to be killed. -/
def startedByHand : Machine := ⟨[⟨none, [3007], none, 300⟩], []⟩

def restartDashboard : AppRun CmdResult :=
  handleRestartApp ⟨true, true⟩ (.object [("app", .string "dashboard")]) dashboardPorts

theorem dashboard_restarted :
    (startedByHand.run dashboardServices restartDashboard).portInUse = [] ∧
      ∀ name ∈ ["dashboard-bridge", "dashboard-dev"], Running dashboardServices name
        (startedByHand.run dashboardServices restartDashboard) := by
  have hservices : restartedServices ⟨"dashboard", "Dashboard", true, "dashboard-bridge",
      "dashboard-\x7bmode\x7d", "dashboard", "dashboard-bridge", "/opt/dev/dashboard",
      "/opt/prod/dashboard", "", ""⟩ "dashboard" "dev" = ["dashboard-bridge", "dashboard-dev"] := by
    decide +kernel
  have hclient : stoi (getSetting dashboardPorts.system_settings "port_dashboard-dev") =
      .ok 3007 := by decide +kernel
  have hserver : stoi (getSetting dashboardPorts.system_settings "port_dashboard-bridge-dev") =
      .ok 3501 := by decide +kernel
  have hkeys : ∀ key ∈ ["port_dashboard-dev", "port_dashboard-bridge-dev"],
      ReadablePort (getSetting dashboardPorts.system_settings key) := by
    rw [List.forall_mem_cons, List.forall_mem_singleton]
    exact ⟨Or.inr ⟨_, hclient⟩, Or.inr ⟨_, hserver⟩⟩
  have hports : ∀ name ∈ ["dashboard-bridge", "dashboard-dev"],
      ∀ port ∈ (dashboardServices name).ports,
        ∃ key ∈ ["port_dashboard-dev", "port_dashboard-bridge-dev"],
          stoi (getSetting dashboardPorts.system_settings key) = .ok port := by
    rw [List.forall_mem_cons, List.forall_mem_singleton]
    refine ⟨List.forall_mem_singleton.mpr ⟨_, ?_, hserver⟩,
      List.forall_mem_singleton.mpr ⟨_, ?_, hclient⟩⟩
    · exact List.mem_cons_of_mem _ List.mem_cons_self
    · exact List.mem_cons_self
  have hyields : PortsYield dashboardPorts.system_settings
      ["port_dashboard-dev", "port_dashboard-bridge-dev"] startedByHand := by
    intro key _ port _ p hp _
    obtain rfl := List.mem_singleton.mp hp
    exact Or.inr (by decide)
  have hrestarted := @restarted_of_portsYield dashboardServices startedByHand _ "dev" _
    dashboardPorts "dashboard" ⟨true, true⟩ (.object [("app", .string "dashboard")])
    ⟨rfl, rfl⟩ ⟨rfl, by decide⟩ hkeys
  rw [hservices] at hrestarted
  exact hrestarted hports (by decide) hyields

end PortRelease

end AutomateLinux
