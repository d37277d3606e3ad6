import AutomateLinux.DaemonServer
import AutomateLinux.AppCommands
import AutomateLinux.PeriodicSends
import AutomateLinux.TransitionSystem

/-!
# Heartbeats

A worker's loop sends the leader a heartbeat every ten seconds, and with every
sixth one the state of its apps.  The leader stamps the peer's row with whole
seconds, keeps the last state of the apps in memory and lists a peer as online
for less than twenty seconds after the stamp.  Times are in milliseconds.

A worker that has lost its connection opens another one; what it sent over the
old one, and the end of it, may still be read after that.
-/

namespace AutomateLinux

namespace Heartbeats

open TransitionSystem PeriodicSends ExtraApps

def HEARTBEAT_INTERVAL_SECS : ℕ := 10

def APP_STATUS_INTERVAL_SECS : ℕ := 60

/-! ## The worker -/

/-- What a worker finds when it looks: the paths that exist and the services that
are active. -/
structure Probe where
  access : String → Bool
  isServiceActive : String → Bool

def appStatus (probe : Probe) (app : AppConfig) : Json :=
  .object
    [("dev_installed", .boolean (probe.access app.devPath)),
      ("prod_installed", .boolean (app.prodPath ≠ "" && probe.access app.prodPath)),
      ("dev_running", .boolean (app.clientServiceTemplate ≠ "" &&
        probe.isServiceActive (resolveServiceName app.clientServiceTemplate app.appId "dev"))),
      ("prod_running", .boolean (app.clientServiceTemplate ≠ "" && app.prodPath ≠ "" &&
        probe.isServiceActive (resolveServiceName app.clientServiceTemplate app.appId "prod")))]

def getLocalAppStatusAll (apps : List AppConfig) (probe : Probe) : Json :=
  .object (apps.map fun app => (app.appId, appStatus probe app))

/-- A worker, its apps and what it would find at each moment. -/
structure Worker where
  m_peerId : String
  ip : String
  mac : String
  hostname : String
  DAEMON_VERSION : Int
  apps : List AppConfig
  probe : ℕ → Probe

namespace Worker

def status (w : Worker) (now : ℕ) : Json := getLocalAppStatusAll w.apps (w.probe now)

def regMsg (w : Worker) (now : ℕ) : Json :=
  .object
    [("command", .string "registerPeer"), ("peer_id", .string w.m_peerId),
      ("ip", .string w.ip), ("mac", .string w.mac),
      ("daemon_version", .number_integer w.DAEMON_VERSION), ("appStatus", w.status now),
      ("hostname", .string w.hostname)]

def hb (w : Worker) (appStatus : Option Json) : Json :=
  .object
    ([("command", .string "heartbeat"), ("peer_id", .string w.m_peerId),
      ("daemon_version", .number_integer w.DAEMON_VERSION)] ++
      appStatus.toList.map fun status => ("appStatus", status))

end Worker

/-! ## The leader -/

/-- The registered peers with the second each row was written in last. -/
structure Leader where
  registry : PeerRegistry
  last_seen : String → ℕ

namespace Leader

/-- Where `appStatus` is an object it replaces the one in memory. -/
def cacheAppStatus (j : Json) (peer_id : String) (registry : PeerRegistry) : PeerRegistry :=
  match j.find? "appStatus" with
  | some (.object members) => AppManager.updatePeerAppStatus peer_id (.object members) registry
  | _ => registry

/-- A registration's state of the apps is kept before the command is dispatched. -/
def cacheRegistration (j : Json) (registry : PeerRegistry) : Except Exn PeerRegistry :=
  match j.find? "peer_id" with
  | some peer_id => peer_id.getString.map fun peer_id => cacheAppStatus j peer_id registry
  | none => .ok registry

/-- A message of `handle_peer_data`, so far as it is about the peers. -/
def handleMessage (now : ℕ) (j : Json) (l : Leader) : Except Exn Leader :=
  match DaemonServer.isCommand j "heartbeat", j.find? "peer_id" with
  | true, some peer_id => do
      let hbPeerId ← peer_id.getString
      let version ← DaemonServer.heartbeatVersion j
      return { registry := cacheAppStatus j hbPeerId
                 (PeerTable.touchLastSeen hbPeerId version l.registry)
               last_seen := Function.update l.last_seen hbPeerId (now / 1000) }
  | _, _ =>
      if DaemonServer.isCommand j "registerPeer" then do
        let registry ← cacheRegistration j l.registry
        let (peer_id, row) ← DaemonServer.peerRecord j
        return { registry := PeerTable.upsertPeer peer_id row.ip_address row.mac_address
                   row.hostname true row.daemon_version registry
                 last_seen := Function.update l.last_seen peer_id (now / 1000) }
      else .ok l

/-- The end of file of a connection of the peer. -/
def eof (now : ℕ) (peer_id : String) (l : Leader) : Leader :=
  { registry := AppManager.clearPeerAppStatus peer_id
      (PeerTable.updateOnlineStatus peer_id false l.registry)
    last_seen := Function.update l.last_seen peer_id (now / 1000) }

/-- `is_online = 1 AND last_seen > NOW() - INTERVAL 20 SECOND`. -/
def is_online_calculated (now : ℕ) (peer_id : String) (l : Leader) : Bool :=
  (l.registry.peer_registry peer_id).any fun row =>
    row.is_online && now / 1000 < l.last_seen peer_id + 20

/-- What `handleGetAppPeers` says of another machine. -/
def peerObj (peer_id appId : String) (is_online : Bool) (cached : Option Json) :
    Except Exn Json := do
  let unknown (error : String) : Json :=
    .object
      [("peer_id", .string peer_id), ("is_online", .boolean is_online),
        ("dev_installed", .null), ("prod_installed", .null), ("dev_running", .null),
        ("prod_running", .null), ("error", .string error)]
  if !is_online then return unknown "peer offline"
  else
    match cached.bind fun status => status.find? appId with
    | none => return unknown "awaiting heartbeat"
    | some appData => do
        let dev_installed ← appData.value "dev_installed" Json.getBool false
        let prod_installed ← appData.value "prod_installed" Json.getBool false
        let dev_running ← appData.value "dev_running" Json.getBool false
        let prod_running ← appData.value "prod_running" Json.getBool false
        return .object
          [("peer_id", .string peer_id), ("is_online", .boolean is_online),
            ("dev_installed", .boolean dev_installed),
            ("prod_installed", .boolean prod_installed), ("dev_running", .boolean dev_running),
            ("prod_running", .boolean prod_running), ("error", .null)]

def listed (now : ℕ) (peer_id appId : String) (l : Leader) : Except Exn Json :=
  peerObj peer_id appId (l.is_online_calculated now peer_id)
    (l.registry.peerAppStatusCache peer_id)

end Leader

/-- The loop of the daemon does the same to the registered peers. -/
theorem registry_peerHeartbeat {j peer_id : Json} {peer_fd : Fd} {s s' : DaemonState}
    (hcommand : DaemonServer.isCommand j "heartbeat" = true)
    (hpeer : j.find? "peer_id" = some peer_id)
    (hheartbeat : DaemonServer.peerHeartbeat j peer_id peer_fd s = .ok s') (now : ℕ)
    (last_seen : String → ℕ) :
    ((⟨s.registry, last_seen⟩ : Leader).handleMessage now j).map Leader.registry =
      .ok s'.registry := by
  unfold DaemonServer.peerHeartbeat at hheartbeat
  cases hid : peer_id.getString with
  | error e => simp [hid] at hheartbeat
  | ok hbPeerId =>
      cases hversion : DaemonServer.heartbeatVersion j with
      | error e => simp [hid, hversion] at hheartbeat
      | ok version =>
          have hcache : ∀ r : DaemonState,
              (DaemonServer.cacheAppStatus j hbPeerId r).registry =
                Leader.cacheAppStatus j hbPeerId r.registry := fun r => by
            unfold DaemonServer.cacheAppStatus Leader.cacheAppStatus
            cases j.find? "appStatus" with
            | none => rfl
            | some status => cases status <;> rfl
          have hregistry : s'.registry = Leader.cacheAppStatus j hbPeerId
              (PeerTable.touchLastSeen hbPeerId version s.registry) := by
            simp only [hid, hversion] at hheartbeat
            split at hheartbeat <;>
              rw [← Except.ok.inj hheartbeat] <;> exact hcache _
          rw [hregistry]
          simp only [Leader.handleMessage, hcommand, hpeer, hid, hversion, Bind.bind, Except.bind]
          rfl

theorem registry_peerEof (fd : Fd) {state : PeerClientState} (hpeer : state.peer_id ≠ "")
    (s : DaemonState) (now : ℕ) (last_seen : String → ℕ) :
    ((⟨s.registry, last_seen⟩ : Leader).eof now state.peer_id).registry =
      (DaemonServer.peerEof fd state s).registry := by
  simp only [Leader.eof, DaemonServer.peerEof, hpeer, if_false]

/-! ## The two of them -/

structure Message where
  connection : ℕ
  sentAt : ℕ
  json : Json

structure System where
  now : ℕ
  m_connectedToLeader : Bool
  appStatusCounter : ℕ
  -- when the loop went to sleep
  wokeAt : ℕ
  -- the connection the worker uses or has used last
  connection : ℕ
  inFlight : List Message
  -- the connections the leader knows the peer of, and those it has closed
  identified : List ℕ
  closed : List ℕ
  leader : Leader

inductive Label
  | tick (ms : ℕ)
  -- the loop comes to the end of its sleep; whether what it then tries succeeds
  | turn (writes connects : Bool)
  -- the leader reads the next message of a connection
  | deliver (connection : ℕ)
  -- the worker finds its connection closed
  | lost
  -- the leader reads the end of a connection, or fails to read from it
  | eof (connection : ℕ)

namespace System

variable (w : Worker)

def send (j : Json) (s : System) : System :=
  { s with inFlight := s.inFlight ++ [⟨s.connection, s.now, j⟩] }

/-- The end of a turn of `reconnectLoop`. -/
def heartbeat (writes : Bool) (s : System) : System :=
  let appStatusCounter := s.appStatusCounter + HEARTBEAT_INTERVAL_SECS
  if !s.m_connectedToLeader then { s with appStatusCounter }
  else if APP_STATUS_INTERVAL_SECS ≤ appStatusCounter then
    if writes then { s.send (w.hb (some (w.status s.now))) with appStatusCounter := 0 }
    else { s with appStatusCounter := 0, m_connectedToLeader := false }
  else if writes then { s.send (w.hb none) with appStatusCounter }
  else { s with appStatusCounter, m_connectedToLeader := false }

/-- The beginning of the next one. -/
def reconnect (connects : Bool) (s : System) : System :=
  if !s.m_connectedToLeader && connects then
    { ({ s with connection := s.connection + 1 } : System).send (w.regMsg s.now) with
      m_connectedToLeader := true
      appStatusCounter := 0 }
  else s

def step (s : System) : Label → Option System
  | .tick ms => some { s with now := s.now + ms }
  | .turn writes connects =>
      if s.wokeAt + HEARTBEAT_INTERVAL_SECS * 1000 ≤ s.now then
        some { (s.heartbeat w writes).reconnect w connects with wokeAt := s.now }
      else none
  | .deliver connection =>
      match s.inFlight.find? fun message =>
          message.connection = connection && !s.closed.contains connection with
      | none => none
      | some message =>
          match s.leader.handleMessage s.now message.json with
          | .error _ => none
          | .ok leader =>
              some { s with
                leader
                identified := connection :: s.identified
                inFlight := s.inFlight.eraseP fun message => message.connection = connection }
  | .lost => some { s with m_connectedToLeader := false }
  | .eof connection =>
      if s.closed.contains connection then none
      else
        some { s with
          closed := connection :: s.closed
          leader :=
            if s.identified.contains connection then s.leader.eof s.now w.m_peerId
            else s.leader }

/-! ## A connection that stays -/

/-- A turn of the loop takes no longer than `period`, a message is handled within
`delay`, and the connection holds. -/
def Up (period delay : ℕ) (s : System) : Label → Prop
  | .tick ms => s.now + ms ≤ s.wokeAt + period ∧
      ∀ message ∈ s.inFlight, s.now + ms ≤ message.sentAt + delay
  | .turn writes _ => writes = true
  | .deliver _ => True
  | .lost | .eof _ => False

instance (period delay : ℕ) (s : System) : ∀ label, Decidable (Up period delay s label)
  | .tick ms => inferInstanceAs (Decidable (s.now + ms ≤ s.wokeAt + period ∧
      ∀ message ∈ s.inFlight, s.now + ms ≤ message.sentAt + delay))
  | .turn writes _ => inferInstanceAs (Decidable (writes = true))
  | .deliver _ => inferInstanceAs (Decidable True)
  | .lost | .eof _ => inferInstanceAs (Decidable False)

/-- The leader has just handled the registration that the worker has sent before it went
to sleep. -/
structure Registered (period delay : ℕ) (s : System) : Prop where
  connected : s.m_connectedToLeader = true
  counter : s.appStatusCounter = 0
  woke : s.wokeAt ≤ s.now
  turn : s.now ≤ s.wokeAt + period
  inFlight : s.inFlight = []
  row : (s.leader.registry.peer_registry w.m_peerId).any PeerRecord.is_online = true
  stamp : s.leader.last_seen w.m_peerId = s.now / 1000
  cached : ∃ t ≤ s.now, s.now ≤ t + delay ∧
    s.leader.registry.peerAppStatusCache w.m_peerId = some (w.status t)

def reportsApps (message : Message) : Bool := message.json.contains "appStatus"

/-- A heartbeat as the worker sends it over its present connection. -/
structure IsHeartbeat (s : System) (message : Message) : Prop where
  connection : message.connection = s.connection
  sent : message.sentAt ≤ s.now
  json : message.json =
    w.hb (if reportsApps message then some (w.status message.sentAt) else none)

/-- The leader's row was stamped when it handled what was sent at `seen`. -/
structure Seen (period : ℕ) (s : System) (seen handled : ℕ) : Prop where
  row : (s.leader.registry.peer_registry w.m_peerId).any PeerRecord.is_online = true
  stamp : s.leader.last_seen w.m_peerId = handled / 1000
  order : seen ≤ handled
  past : handled ≤ s.now
  spaced : Spaced period seen (s.inFlight.map Message.sentAt) s.wokeAt

/-- The leader has the apps as they were at `t`; the worker has reported them last
at `last`, `k` turns ago. -/
structure Reported (period delay : ℕ) (s : System) (t base last k : ℕ) : Prop where
  cached : s.leader.registry.peerAppStatusCache w.m_peerId = some (w.status t)
  past : t ≤ s.now
  recent : base ≤ t + delay
  spaced : Spaced (6 * period) base ((s.inFlight.filter reportsApps).map Message.sentAt) last
  counter : s.appStatusCounter = HEARTBEAT_INTERVAL_SECS * k
  turns : k ≤ 5
  woke : s.wokeAt ≤ last + k * period

structure Present (period delay : ℕ) (s : System) : Prop where
  connected : s.m_connectedToLeader = true
  turn : s.now ≤ s.wokeAt + period
  timely : ∀ message ∈ s.inFlight, s.now ≤ message.sentAt + delay
  messages : ∀ message ∈ s.inFlight, IsHeartbeat w s message
  seen : ∃ seen handled, Seen w period s seen handled
  reported : ∃ t base last k, Reported w period delay s t base last k

section

variable {w} {period delay : ℕ} {s s' : System}

theorem Registered.present (hs : Registered w period delay s) : Present w period delay s := by
  obtain ⟨t, ht, hdelay, hcached⟩ := hs.cached
  refine ⟨hs.connected, hs.turn, by simp [hs.inFlight], by simp [hs.inFlight],
    ⟨s.wokeAt, s.now, hs.row, hs.stamp, hs.woke, le_rfl, ?_⟩,
    ⟨t, s.now, s.now, 0, hcached, ht, hdelay, ?_, hs.counter, by omega, ?_⟩⟩
  · rw [hs.inFlight]
    exact Spaced.refl period s.wokeAt
  · rw [hs.inFlight]
    exact Spaced.refl (6 * period) s.now
  · exact hs.woke.trans (Nat.le_add_right _ _)

theorem Present.tick (hs : Present w period delay s) {ms : ℕ}
    (hup : Up period delay s (.tick ms)) : Present w period delay { s with now := s.now + ms } := by
  obtain ⟨seen, handled, hseen⟩ := hs.seen
  obtain ⟨t, base, last, k, hreported⟩ := hs.reported
  refine ⟨hs.connected, hup.1, hup.2, fun message hmessage => ?_,
    ⟨seen, handled, hseen.row, hseen.stamp, hseen.order, ?_, hseen.spaced⟩,
    ⟨t, base, last, k, hreported.cached, ?_, hreported.recent, hreported.spaced,
      hreported.counter, hreported.turns, hreported.woke⟩⟩
  · have hheartbeat := hs.messages message hmessage
    exact ⟨hheartbeat.connection, hheartbeat.sent.trans (Nat.le_add_right _ _), hheartbeat.json⟩
  · exact hseen.past.trans (Nat.le_add_right _ _)
  · exact hreported.past.trans (Nat.le_add_right _ _)

theorem reportsApps_hb (connection sentAt : ℕ) (status : Option Json) :
    reportsApps ⟨connection, sentAt, w.hb status⟩ = status.isSome := by
  cases status <;> rfl

/-- The state after a heartbeat. -/
def beaten (w : Worker) (status : Option Json) (counter : ℕ) (s : System) : System :=
  { s with
    inFlight := s.inFlight ++ [⟨s.connection, s.now, w.hb status⟩]
    appStatusCounter := counter
    wokeAt := s.now }

theorem heartbeat_eq_beaten {k : ℕ} (hconnected : s.m_connectedToLeader = true)
    (hcounter : s.appStatusCounter = HEARTBEAT_INTERVAL_SECS * k) (hturns : k ≤ 5) :
    ({ s.heartbeat w true with wokeAt := s.now } : System) =
      if k = 5 then s.beaten w (some (w.status s.now)) 0
      else s.beaten w none (HEARTBEAT_INTERVAL_SECS * (k + 1)) := by
  unfold System.heartbeat
  simp only [hconnected, hcounter, Bool.not_true, Bool.false_eq_true, if_false, if_true]
  by_cases hfull : k = 5
  · subst hfull
    rfl
  · have hless : ¬ APP_STATUS_INTERVAL_SECS ≤
        HEARTBEAT_INTERVAL_SECS * k + HEARTBEAT_INTERVAL_SECS := by
      simp only [APP_STATUS_INTERVAL_SECS, HEARTBEAT_INTERVAL_SECS]
      omega
    rw [if_neg hless, if_neg hfull]
    rfl

theorem Present.beaten (hs : Present w period delay s) {status : Option Json} {counter : ℕ}
    (hstatus : status = none ∨ status = some (w.status s.now))
    (hreported : ∃ t base last k,
      Reported w period delay (s.beaten w status counter) t base last k) :
    Present w period delay (s.beaten w status counter) := by
  obtain ⟨seen, handled, hseen⟩ := hs.seen
  refine ⟨hs.connected, Nat.le_add_right _ _, fun message hmessage => ?_,
    fun message hmessage => ?_,
    ⟨seen, handled, hseen.row, hseen.stamp, hseen.order, hseen.past, ?_⟩, hreported⟩
  · rcases List.mem_append.mp hmessage with hold | hnew
    · exact hs.timely message hold
    · obtain rfl := List.mem_singleton.mp hnew
      exact Nat.le_add_right _ _
  · rcases List.mem_append.mp hmessage with hold | hnew
    · exact ⟨(hs.messages message hold).connection, (hs.messages message hold).sent,
        (hs.messages message hold).json⟩
    · obtain rfl := List.mem_singleton.mp hnew
      refine ⟨rfl, le_rfl, ?_⟩
      rw [reportsApps_hb]
      rcases hstatus with rfl | rfl <;> rfl
  · change Spaced period seen ((s.inFlight ++ [_]).map Message.sentAt) s.now
    rw [List.map_append]
    exact hseen.spaced.send hs.turn

/-- The heartbeat at the end of a turn. -/
theorem Present.heartbeat (hs : Present w period delay s) :
    Present w period delay { s.heartbeat w true with wokeAt := s.now } := by
  obtain ⟨t, base, last, k, hreported⟩ := hs.reported
  have hturn := hs.turn
  have hwoke := hreported.woke
  rw [heartbeat_eq_beaten hs.connected hreported.counter hreported.turns]
  split
  · next hfull =>
      subst hfull
      refine hs.beaten (Or.inr rfl) ⟨t, base, s.now, 0, hreported.cached, hreported.past,
        hreported.recent, ?_, rfl, by omega, Nat.le_add_right _ _⟩
      have hreports : reportsApps ⟨s.connection, s.now, w.hb (some (w.status s.now))⟩ = true :=
        reportsApps_hb _ _ _
      change Spaced (6 * period) base (((s.inFlight ++ [_]).filter reportsApps).map _) s.now
      rw [List.filter_append, List.filter_singleton, hreports, List.map_append]
      have hlast : s.now ≤ last + 6 * period := by omega
      exact hreported.spaced.send hlast
  · next hmore =>
      refine hs.beaten (Or.inl rfl) ⟨t, base, last, k + 1, hreported.cached, hreported.past,
        hreported.recent, ?_, rfl, by have hturns := hreported.turns; omega, ?_⟩
      · have hreports : reportsApps ⟨s.connection, s.now, w.hb none⟩ = false :=
          reportsApps_hb _ _ _
        change Spaced (6 * period) base (((s.inFlight ++ [_]).filter reportsApps).map _) last
        rw [List.filter_append, List.filter_singleton, hreports]
        simpa using hreported.spaced
      · change s.now ≤ last + (k + 1) * period
        rw [Nat.succ_mul]
        omega

theorem is_online_touchLastSeen (peer_id : String) (version : Option Int)
    (registry : PeerRegistry) :
    ((PeerTable.touchLastSeen peer_id version registry).peer_registry peer_id).any
        PeerRecord.is_online = (registry.peer_registry peer_id).isSome := by
  simp only [PeerTable.touchLastSeen, PeerTable.updateRow, Function.update_self]
  cases registry.peer_registry peer_id <;> rfl

/-- What a heartbeat does at the leader. -/
theorem handleMessage_hb (now : ℕ) (reports : Bool) (sentAt : ℕ) (l : Leader) :
    ∃ l', l.handleMessage now
        (w.hb (if reports then some (w.status sentAt) else none)) = .ok l' ∧
      (l'.registry.peer_registry w.m_peerId).any PeerRecord.is_online =
        (l.registry.peer_registry w.m_peerId).isSome ∧
      l'.last_seen w.m_peerId = now / 1000 ∧
      l'.registry.peerAppStatusCache w.m_peerId =
        if reports then some (w.status sentAt) else l.registry.peerAppStatusCache w.m_peerId := by
  cases reports with
  | true =>
      exact ⟨_, rfl, is_online_touchLastSeen _ _ _, Function.update_self ..,
        Function.update_self ..⟩
  | false =>
      exact ⟨_, rfl, is_online_touchLastSeen _ _ _, Function.update_self .., rfl⟩

/-- While every message is on the same connection the leader reads the oldest. -/
theorem step_deliver {message : Message} {rest : List Message} {connection : ℕ}
    (hflight : s.inFlight = message :: rest)
    (hsame : ∀ other ∈ s.inFlight, other.connection = s.connection)
    (hstep : s.step w (.deliver connection) = some s') :
    ∃ leader identified, s.leader.handleMessage s.now message.json = .ok leader ∧
      s' = { s with leader, identified, inFlight := rest } := by
  rw [hflight] at hsame
  obtain ⟨hhead, hrest⟩ := List.forall_mem_cons.mp hsame
  simp only [System.step, hflight] at hstep
  by_cases hread :
      (decide (message.connection = connection) && !s.closed.contains connection) = true
  · have hfound : (message :: rest).find? (fun other =>
        decide (other.connection = connection) && !s.closed.contains connection) =
          some message := by
      rw [List.find?_cons, hread]
    rw [hfound] at hstep
    have hconnection : message.connection = connection := by
      simpa using (Bool.and_eq_true_iff.mp hread).1
    simp only at hstep
    split at hstep
    · cases hstep
    · next leader hleader =>
        refine ⟨leader, connection :: s.identified, hleader, ?_⟩
        rw [List.eraseP_cons_of_pos (by simpa using hconnection)] at hstep
        exact (Option.some.inj hstep).symm
  · have hnone : (message :: rest).find? (fun other =>
        decide (other.connection = connection) && !s.closed.contains connection) = none := by
      rw [List.find?_eq_none]
      intro other hother
      rw [hsame other hother, ← hhead]
      exact hread
    rw [hnone] at hstep
    cases hstep

theorem Present.deliver (hs : Present w period delay s) {connection : ℕ}
    (hstep : s.step w (.deliver connection) = some s') : Present w period delay s' := by
  obtain ⟨seen, handled, hseen⟩ := hs.seen
  obtain ⟨t, base, last, k, hreported⟩ := hs.reported
  cases hflight : s.inFlight with
  | nil => simp [System.step, hflight] at hstep
  | cons message rest =>
      obtain ⟨leader, identified, hleader, rfl⟩ := step_deliver hflight
        (fun other hother => (hs.messages other hother).connection) hstep
      have hmessages := hs.messages
      have htimely := hs.timely
      have hspaced := hseen.spaced
      have hreports := hreported.spaced
      rw [hflight] at hmessages htimely hspaced hreports
      obtain ⟨hmessage, hrest⟩ := List.forall_mem_cons.mp hmessages
      obtain ⟨l', hl', hrow, hstamp, hcache⟩ :=
        @handleMessage_hb w s.now (reportsApps message) message.sentAt s.leader
      rw [hmessage.json, hl'] at hleader
      obtain rfl := Except.ok.inj hleader
      have honline : (l'.registry.peer_registry w.m_peerId).any PeerRecord.is_online = true := by
        rw [hrow]
        exact Option.isSome_of_any hseen.row
      refine ⟨hs.connected, hs.turn,
        fun other hother => htimely other (List.mem_cons_of_mem _ hother),
        fun other hother => ?_, ⟨message.sentAt, s.now, honline, hstamp, hmessage.sent, le_rfl,
        hspaced.2⟩, ?_⟩
      · have hheartbeat := hrest other hother
        exact ⟨hheartbeat.connection, hheartbeat.sent, hheartbeat.json⟩
      · by_cases hfull : reportsApps message = true
        · rw [List.filter_cons_of_pos hfull, List.map_cons] at hreports
          rw [if_pos hfull] at hcache
          exact ⟨message.sentAt, message.sentAt, last, k, hcache, hmessage.sent,
            Nat.le_add_right _ _, hreports.2, hreported.counter, hreported.turns, hreported.woke⟩
        · rw [List.filter_cons_of_neg hfull] at hreports
          rw [if_neg hfull] at hcache
          exact ⟨t, base, last, k, hcache.trans hreported.cached, hreported.past,
            hreported.recent, hreports, hreported.counter, hreported.turns, hreported.woke⟩

theorem Present.step (hs : Present w period delay s) {label : Label}
    (hup : Up period delay s label) (hstep : s.step w label = some s') :
    Present w period delay s' := by
  cases label with
  | tick ms =>
      obtain rfl := Option.some.inj hstep
      exact hs.tick hup
  | turn writes connects =>
      obtain rfl : writes = true := hup
      simp only [System.step] at hstep
      split at hstep
      · obtain rfl := Option.some.inj hstep
        have hbeat := hs.heartbeat
        have hconnected : (s.heartbeat w true).m_connectedToLeader = true := hbeat.connected
        rw [reconnect, hconnected]
        exact hbeat
      · cases hstep
  | deliver connection => exact hs.deliver hstep
  | lost => exact hup.elim
  | eof connection => exact hup.elim

theorem Present.online (hs : Present w period delay s) (hperiod : period + delay ≤ 19000) :
    s.leader.is_online_calculated s.now w.m_peerId = true := by
  obtain ⟨seen, handled, hseen⟩ := hs.seen
  have hage : s.now ≤ seen + period + delay :=
    hseen.spaced.le (by simpa using hs.timely) hs.turn
  have horder := hseen.order
  have hrow := hseen.row
  have hstamp := hseen.stamp
  unfold Leader.is_online_calculated
  cases hrecord : s.leader.registry.peer_registry w.m_peerId with
  | none => simp [hrecord] at hrow
  | some row =>
      rw [hrecord] at hrow
      have honline : row.is_online = true := hrow
      simp only [Option.any_some, honline, Bool.true_and, decide_eq_true_eq, hstamp]
      omega

theorem Present.reported_recently (hs : Present w period delay s) :
    ∃ t ≤ s.now, s.now ≤ t + (6 * period + 2 * delay) ∧
      s.leader.registry.peerAppStatusCache w.m_peerId = some (w.status t) := by
  obtain ⟨t, base, last, k, hreported⟩ := hs.reported
  have hturn := hs.turn
  have hwoke := hreported.woke
  have hmul : k * period ≤ 5 * period := Nat.mul_le_mul_right period hreported.turns
  have hrecent := hreported.recent
  have hlast : s.now ≤ last + 6 * period := by omega
  have hage : s.now ≤ base + 6 * period + delay := by
    refine hreported.spaced.le (fun sent hsent => ?_) hlast
    obtain ⟨message, hmessage, rfl⟩ := List.mem_map.mp hsent
    exact hs.timely message (List.mem_of_mem_filter hmessage)
  exact ⟨t, hreported.past, by omega, hreported.cached⟩

end

end System

/-! ## A peer that is listed -/

namespace Leader

theorem peer_registry_cacheAppStatus (j : Json) (peer_id : String) (registry : PeerRegistry) :
    (cacheAppStatus j peer_id registry).peer_registry = registry.peer_registry := by
  unfold cacheAppStatus
  split <;> rfl

theorem peer_registry_cacheRegistration {j : Json} {registry registry' : PeerRegistry}
    (hcache : cacheRegistration j registry = .ok registry') :
    registry'.peer_registry = registry.peer_registry := by
  unfold cacheRegistration at hcache
  split at hcache
  · next peer_id _ =>
      cases hid : peer_id.getString with
      | error e => simp [hid, Except.map] at hcache
      | ok peer_id =>
          simp only [hid, Except.map] at hcache
          rw [← Except.ok.inj hcache, peer_registry_cacheAppStatus]
  · rw [Except.ok.inj hcache]

/-- A message stamps the peer's row, or leaves it alone. -/
theorem handleMessage_cases {now : ℕ} {j : Json} {l l' : Leader}
    (hmessage : l.handleMessage now j = .ok l') (peer_id : String) :
    l'.last_seen peer_id = now / 1000 ∨
      l'.last_seen peer_id = l.last_seen peer_id ∧
        l'.registry.peer_registry peer_id = l.registry.peer_registry peer_id := by
  have hstamp : ∀ other registry, l' = ⟨registry, Function.update l.last_seen other (now / 1000)⟩ →
      (peer_id ≠ other → registry.peer_registry peer_id = l.registry.peer_registry peer_id) →
      l'.last_seen peer_id = now / 1000 ∨
        l'.last_seen peer_id = l.last_seen peer_id ∧
          l'.registry.peer_registry peer_id = l.registry.peer_registry peer_id := by
    rintro other registry rfl hrow
    by_cases hpeer : peer_id = other
    · exact Or.inl (by rw [hpeer]; exact Function.update_self ..)
    · exact Or.inr ⟨Function.update_of_ne hpeer .., hrow hpeer⟩
  unfold handleMessage at hmessage
  split at hmessage
  · next peer _ _ =>
      cases hid : peer.getString with
      | error e => simp [hid, Bind.bind, Except.bind] at hmessage
      | ok hbPeerId =>
          cases hversion : DaemonServer.heartbeatVersion j with
          | error e => simp [hid, hversion, Bind.bind, Except.bind] at hmessage
          | ok version =>
              simp only [hid, hversion, Bind.bind, Except.bind] at hmessage
              refine hstamp hbPeerId _ (Except.ok.inj hmessage).symm fun hpeer => ?_
              rw [peer_registry_cacheAppStatus]
              exact Function.update_of_ne hpeer ..
  · split at hmessage
    · cases hcache : cacheRegistration j l.registry with
      | error e => simp [hcache, Bind.bind, Except.bind] at hmessage
      | ok registry =>
          cases hrecord : DaemonServer.peerRecord j with
          | error e => simp [hcache, hrecord, Bind.bind, Except.bind] at hmessage
          | ok record =>
              simp only [hcache, hrecord, Bind.bind, Except.bind] at hmessage
              refine hstamp record.1 _ (Except.ok.inj hmessage).symm fun hpeer => ?_
              rw [← peer_registry_cacheRegistration hcache]
              exact Function.update_of_ne hpeer ..
    · obtain rfl := Except.ok.inj hmessage
      exact Or.inr ⟨rfl, rfl⟩

end Leader

namespace System

variable {w : Worker}

/-- The leader's row says online, and its stamp is still fresh at the time. -/
def FreshAt (w : Worker) (now : ℕ) (s : System) : Prop :=
  (s.leader.registry.peer_registry w.m_peerId).any PeerRecord.is_online = true ∧
    now / 1000 < s.leader.last_seen w.m_peerId + 20

theorem freshAt_of_online {s : System}
    (honline : s.leader.is_online_calculated s.now w.m_peerId = true) : s.FreshAt w s.now := by
  unfold Leader.is_online_calculated at honline
  cases hrow : s.leader.registry.peer_registry w.m_peerId with
  | none => simp [hrow] at honline
  | some row =>
      rw [hrow, Option.any_some, Bool.and_eq_true, decide_eq_true_eq] at honline
      exact ⟨by rw [hrow]; exact honline.1, honline.2⟩

theorem leader_turn (w : Worker) (s : System) (writes connects : Bool) :
    ((s.heartbeat w writes).reconnect w connects).leader = s.leader := by
  unfold reconnect System.heartbeat send
  dsimp only
  split_ifs <;> rfl

/-- Only a message the leader handles makes a peer fresh. -/
theorem freshAt_of_step {s s' : System} {label : Label} (hstep : s.step w label = some s')
    {now : ℕ} (hfresh : s'.FreshAt w now) :
    s.FreshAt w now ∨ (∃ connection, label = .deliver connection) ∧ now < s.now + 20000 := by
  cases label with
  | tick ms =>
      obtain rfl := Option.some.inj hstep
      exact Or.inl hfresh
  | lost =>
      obtain rfl := Option.some.inj hstep
      exact Or.inl hfresh
  | turn writes connects =>
      simp only [step] at hstep
      split at hstep
      · obtain rfl := Option.some.inj hstep
        left
        unfold FreshAt at hfresh ⊢
        dsimp only at hfresh
        rwa [leader_turn] at hfresh
      · cases hstep
  | deliver connection =>
      simp only [step] at hstep
      split at hstep
      · cases hstep
      split at hstep
      · cases hstep
      next leader hleader =>
        obtain rfl := Option.some.inj hstep
        obtain ⟨hrow, hstamp⟩ := hfresh
        rcases Leader.handleMessage_cases hleader w.m_peerId with hnow | ⟨hseen, hsame⟩
        · refine Or.inr ⟨⟨connection, rfl⟩, ?_⟩
          dsimp only at hstamp
          rw [hnow] at hstamp
          omega
        · dsimp only at hrow hstamp
          rw [hsame] at hrow
          rw [hseen] at hstamp
          exact Or.inl ⟨hrow, hstamp⟩
  | eof connection =>
      simp only [step] at hstep
      split at hstep
      · cases hstep
      · obtain rfl := Option.some.inj hstep
        unfold FreshAt at hfresh
        dsimp only at hfresh
        split at hfresh
        · have hoffline : ((s.leader.eof s.now w.m_peerId).registry.peer_registry w.m_peerId).any
              PeerRecord.is_online = false := by
            simp only [Leader.eof, AppManager.clearPeerAppStatus, PeerTable.updateOnlineStatus,
              PeerTable.updateRow, Function.update_self]
            cases s.leader.registry.peer_registry w.m_peerId <;> rfl
          rw [hoffline] at hfresh
          exact absurd hfresh.1 Bool.false_ne_true
        · exact Or.inl hfresh

def laptop : Worker where
  m_peerId := "laptop"
  ip := "10.0.0.3"
  mac := ""
  hostname := "laptop"
  DAEMON_VERSION := 7
  apps := []
  probe := fun _ => ⟨fun _ => false, fun _ => false⟩

/-- The loop finds itself without a connection. -/
def unregistered : System where
  now := 10000
  m_connectedToLeader := false
  appStatusCounter := 0
  wokeAt := 0
  connection := 0
  inFlight := []
  identified := []
  closed := []
  leader := ⟨PeerRegistry.empty, fun _ => 0⟩

def registeredLaptop : System where
  now := 10030
  m_connectedToLeader := true
  appStatusCounter := 0
  wokeAt := 10000
  connection := 1
  inFlight := []
  identified := [1]
  closed := []
  leader :=
    ⟨⟨fun _ => some ⟨laptop.ip, laptop.mac, laptop.hostname, true, laptop.DAEMON_VERSION⟩,
      fun _ => some (laptop.status 10000)⟩, fun _ => 10⟩

end System

end Heartbeats

end AutomateLinux
