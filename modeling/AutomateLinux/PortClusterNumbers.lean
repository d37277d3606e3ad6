import AutomateLinux.PortCluster
import AutomateLinux.UnitFileRuns

/-!
# Port numbers in a cluster

What a manager sends are the ports of the machine that asked, so no installation gives
a port a number that no one gave it, in whatever order the commands arrive.  An
installation that the leader is asked for changes no port number at all, unless
something else changes the port while it still has to be set; other installations may be
asked for anywhere.
-/

namespace AutomateLinux

namespace PortCluster

open ExtraApps UnitFiles TransitionSystem CollatedTable

section

variable {weight : String → String} {s : Registry weight}

/-! ## Commands -/

theorem number_congr (s : Registry weight) {key other : String}
    (hweight : weight ("port_" ++ other) = weight ("port_" ++ key)) :
    number s other = number s key := by
  rw [number, number, get?_congr _ hweight]

theorem carryOut_setPortMessage (shell : Shell) (key : String) (port : Int)
    (s : Registry weight) :
    carryOut shell (setPortMessage key port) s =
      { s with system_settings :=
        s.system_settings.upsert ("port_" ++ key) (to_string port) } := rfl

theorem number_setPort (shell : Shell) {key : String} {port : Int}
    (hread : stoi (to_string port) = .ok port) (s : Registry weight) (other : String) :
    number (carryOut shell (setPortMessage key port) s) other =
      if weight ("port_" ++ other) = weight ("port_" ++ key) then some port
      else number s other := by
  rw [carryOut_setPortMessage, number]
  dsimp only
  rw [get?_upsert]
  split
  · rw [Option.bind_some, hread]
    rfl
  · rfl

theorem number_of_fewer {rest : Registry weight} {key : String} {n : Int}
    (hfewer : ∀ text, rest.system_settings.get? ("port_" ++ key) = some text →
      s.system_settings.get? ("port_" ++ key) = some text)
    (hnumber : number rest key = some n) : number s key = some n := by
  obtain ⟨text, htext, hread⟩ := Option.bind_eq_some_iff.mp hnumber
  exact Option.bind_eq_some_iff.mpr ⟨text, hfewer text htext, hread⟩

theorem get?_of_erase {settings : CollatedTable weight String} {key other text : String}
    (htext : (settings.erase key).get? other = some text) : settings.get? other = some text := by
  rw [get?_erase] at htext
  split at htext
  · simp at htext
  · exact htext

theorem number_of_deletePort {shell : Shell} {key other : String} {n : Int}
    (hnumber : number (carryOut shell (deletePortMessage key) s) other = some n) :
    number s other = some n := by
  refine number_of_fewer (fun text htext => ?_) hnumber
  have hcarry : carryOut shell (deletePortMessage key) s =
      (handleDeletePort none (.string key) s).2 := rfl
  rw [hcarry, handleDeletePort] at htext
  dsimp only [Json.getString] at htext
  split at htext
  · exact get?_of_erase htext
  · exact htext

def removeExtraAppMessage (appId : String) : Json :=
  .object [("command", .string "removeExtraApp"), ("app", .string appId)]

theorem number_of_removeExtraApp {shell : Shell} {appId other : String} {n : Int}
    (hnumber : number (carryOut shell (removeExtraAppMessage appId) s) other = some n) :
    number s other = some n := by
  refine number_of_fewer (fun text htext => ?_) hnumber
  have hcarry : carryOut shell (removeExtraAppMessage appId) s =
      (handleRemoveExtraApp (removeExtraAppMessage appId) s).2 := rfl
  have happ : (removeExtraAppMessage appId).find? "app" = some (.string appId) := rfl
  rw [hcarry, handleRemoveExtraApp, happ] at htext
  dsimp only [Json.getString] at htext
  split at htext
  · exact htext
  · unfold deletePorts at htext
    dsimp only at htext
    split at htext
    · exact get?_of_erase (get?_of_erase (get?_of_erase htext))
    · exact get?_of_erase (get?_of_erase htext)

/-! ## What a manager sends -/

/-- A command of a manager that sets only ports of which `allowed` holds. -/
inductive FromManager (allowed : String → Int → Prop) : Json → Prop
  | setPort (key : String) (port : Int) (hread : stoi (to_string port) = .ok port)
      (hallowed : allowed key port) : FromManager allowed (setPortMessage key port)
  | deletePort (key : String) : FromManager allowed (deletePortMessage key)
  | removeExtraApp (appId : String) : FromManager allowed (removeExtraAppMessage appId)

/-- The ports are numbers that the machine has under their keys. -/
def OwnPorts (s : Registry weight) (ports : OrderedMap String Int) : Prop :=
  ∀ key port, ports.get? key = some port →
    number s key = some port ∧ stoi (to_string port) = .ok port

theorem ownPorts_insertPort {key : String} {ports ports' : OrderedMap String Int}
    (hports : OwnPorts s ports)
    (hinsert : insertPort key (getSetting s.system_settings ("port_" ++ key)) ports =
      .ok ports') : OwnPorts s ports' := by
  unfold insertPort at hinsert
  split at hinsert
  · obtain rfl := Except.ok.inj hinsert
    exact hports
  · rename_i hsome
    cases hstoi : stoi (getSetting s.system_settings ("port_" ++ key)) with
    | error e => simp [hstoi, Except.map] at hinsert
    | ok n =>
        rw [hstoi] at hinsert
        obtain rfl := Except.ok.inj hinsert
        intro other port hport
        rw [OrderedMap.get?_insert] at hport
        split at hport
        · rename_i hother
          subst hother
          obtain rfl := Option.some.inj hport
          refine ⟨?_, stoi_to_string_of_stoi hstoi⟩
          unfold getSetting at hstoi hsome
          cases hget : s.system_settings.get? ("port_" ++ other) with
          | none => simp [hget] at hsome
          | some text =>
              rw [hget, Option.getD_some] at hstoi
              rw [number, hget, Option.bind_some, hstoi]
              rfl
        · exact hports other port hport

theorem ownPorts_empty (s : Registry weight) : OwnPorts s OrderedMap.empty := by
  intro key port hport
  rw [OrderedMap.get?_empty] at hport
  simp at hport

theorem ownPorts_appPorts {config : AppConfig} {ports : OrderedMap String Int}
    (hports : appPorts s.system_settings config = .ok ports) : OwnPorts s ports := by
  have hprodKey : clientPortKey config "prod" = "port_" ++ (config.portKeyClient ++ "-prod") :=
    clientPortKey_eq config "prod"
  have hdevKey : clientPortKey config "dev" = "port_" ++ (config.portKeyClient ++ "-dev") :=
    clientPortKey_eq config "dev"
  unfold appPorts at hports
  rw [hprodKey, hdevKey] at hports
  dsimp only [bind, Except.bind] at hports
  split at hports
  · simp at hports
  rename_i prod hprod
  have hprodOwn := ownPorts_insertPort (ownPorts_empty s) hprod
  split at hports
  · simp at hports
  rename_i dev hdev
  have hdevOwn := ownPorts_insertPort hprodOwn hdev
  split at hports
  · exact ownPorts_insertPort hdevOwn hports
  · obtain rfl := Except.ok.inj hports
    exact hdevOwn

/-- A command that sets a port to a number of which `allowed` holds. -/
def Sets (allowed : String → Int → Prop) (message : Json) : Prop :=
  ∃ key port, message = setPortMessage key port ∧ stoi (to_string port) = .ok port ∧
    allowed key port

/-- An installation sets the ports that the asking machine has. -/
theorem sets_install {appId repoUrl mode : String} {request : InstallApp}
    (hrequest : installRequest s appId repoUrl mode = some request) (host : Host)
    (files : Machine) :
    ∀ message ∈ (handle_install_app host request files).sent,
      Sets (fun key port => number s key = some port) message := by
  have hown : OwnPorts s request.ports := by
    unfold installRequest at hrequest
    split at hrequest
    · simp at hrequest
    · split at hrequest
      · simp at hrequest
      · rename_i ports hports
        obtain rfl := Option.some.inj hrequest
        exact ownPorts_appPorts hports
  intro message hmessage
  unfold handle_install_app at hmessage
  split at hmessage
  · simp at hmessage
  · split at hmessage
    · simp at hmessage
    · obtain ⟨⟨key, port⟩, hport, rfl⟩ := List.mem_map.mp hmessage
      obtain ⟨hnumber, hread⟩ := hown key port (OrderedMap.get?_eq_some_iff.mpr hport)
      exact ⟨key, port, rfl, hread, hnumber⟩

theorem fromManager_install {allowed : String → Int → Prop} {appId repoUrl mode : String}
    {request : InstallApp} (hrequest : installRequest s appId repoUrl mode = some request)
    (hallowed : ∀ key port, number s key = some port → allowed key port) (host : Host)
    (files : Machine) :
    ∀ message ∈ (handle_install_app host request files).sent, FromManager allowed message := by
  intro message hmessage
  obtain ⟨key, port, rfl, hread, hnumber⟩ := sets_install hrequest host files message hmessage
  exact .setPort key port hread (hallowed key port hnumber)

theorem fromManager_uninstall (allowed : String → Int → Prop) (host : Host)
    (request : UninstallApp) (files : Machine) :
    ∀ message ∈ (handle_uninstall_app host request files).sent, FromManager allowed message := by
  intro message hmessage
  rcases List.mem_append.mp hmessage with hdelete | hremove
  · obtain ⟨key, -, rfl⟩ := List.mem_map.mp hdelete
    exact .deletePort key
  · obtain rfl := List.mem_singleton.mp hremove
    exact .removeExtraApp request.app_id

theorem FromManager.imp {allowed allowed' : String → Int → Prop} {message : Json}
    (hmessage : FromManager allowed message)
    (himp : ∀ key port, allowed key port → allowed' key port) : FromManager allowed' message := by
  cases hmessage with
  | setPort key port hread hallowed => exact .setPort key port hread (himp key port hallowed)
  | deletePort key => exact .deletePort key
  | removeExtraApp appId => exact .removeExtraApp appId

/-- A manager's command takes ports away or sets one that is allowed. -/
theorem FromManager.number {allowed : String → Int → Prop} {message : Json}
    (hmessage : FromManager allowed message) {shell : Shell} {other : String} {n : Int}
    (hnumber : number (carryOut shell message s) other = some n) :
    number s other = some n ∨
      ∃ key, weight ("port_" ++ other) = weight ("port_" ++ key) ∧ allowed key n := by
  cases hmessage with
  | setPort key port hread hallowed =>
      rw [number_setPort shell hread] at hnumber
      split at hnumber
      · rename_i hweight
        obtain rfl := Option.some.inj hnumber
        exact .inr ⟨key, hweight, hallowed⟩
      · exact .inl hnumber
  | deletePort key => exact .inl (number_of_deletePort hnumber)
  | removeExtraApp appId => exact .inl (number_of_removeExtraApp hnumber)

/-! ## No invented numbers -/

variable {ι : Type} [DecidableEq ι] {leader : ι} {c c' first : Cluster ι weight}

theorem give_cases (leader machine : ι) (reaches : Bool) (shell : Shell) (command : Json)
    (c : Cluster ι weight) (place : ι) :
    (c.give leader machine reaches shell command).registries place = c.registries place ∨
      (c.give leader machine reaches shell command).registries place =
        carryOut shell command (c.registries place) := by
  unfold Cluster.give
  dsimp only
  split
  · exact .inl rfl
  · dsimp only
    by_cases hplace : place = if isForwarded command then leader else machine
    · subst hplace
      rw [Function.update_self]
      exact .inr rfl
    · rw [Function.update_of_ne hplace]
      exact .inl rfl

theorem jobs_give (leader machine : ι) (reaches : Bool) (shell : Shell) (command : Json)
    (c : Cluster ι weight) : (c.give leader machine reaches shell command).jobs = c.jobs := by
  unfold Cluster.give
  dsimp only
  split <;> rfl

theorem step_send {i : ℕ} {reaches : Bool} {shell : Shell}
    (hstep : c.step leader (.send i reaches shell) = some c') :
    ∃ peer message rest, c.jobs[i]? = some (peer, message :: rest) ∧
      c' = { c.give leader peer reaches shell message with jobs := c.jobs.set i (peer, rest) } := by
  simp only [Cluster.step] at hstep
  split at hstep
  · rename_i peer message rest hjob
    exact ⟨peer, message, rest, hjob, (Option.some.inj hstep).symm⟩
  · simp at hstep

omit [DecidableEq ι] in
/-- A job loses the command it has sent. -/
theorem mem_jobs_set {jobs : List (ι × List Json)} {i : ℕ} {peer : ι} {sent : Json}
    {rest : List Json} (hjob : jobs[i]? = some (peer, sent :: rest)) {job : ι × List Json}
    (hmem : job ∈ jobs.set i (peer, rest)) {message : Json} (hmessage : message ∈ job.2) :
    ∃ before ∈ jobs, message ∈ before.2 := by
  rcases List.mem_or_eq_of_mem_set hmem with hold | rfl
  · exact ⟨job, hold, hmessage⟩
  · exact ⟨_, List.mem_of_getElem? hjob, List.mem_cons_of_mem _ hmessage⟩

variable {allowed : String → Int → Prop}

/-- Every port on every machine is allowed. -/
def Numbers (allowed : String → Int → Prop) (c : Cluster ι weight) : Prop :=
  ∀ machine key n, number (c.registries machine) key = some n → allowed key n

/-- A command that is not a manager's gives ports allowed numbers only. -/
def GivesAllowed (leader : ι) (allowed : String → Int → Prop) (c : Cluster ι weight) :
    Label ι → Prop
  | .command machine reaches shell command => ∀ place key n,
      number ((c.give leader machine reaches shell command).registries place) key = some n →
        number (c.registries place) key = some n ∨ allowed key n
  | _ => True

/-- Allowed in every spelling of the key. -/
def Spelled (weight : String → String) (allowed : String → Int → Prop) (key : String)
    (n : Int) : Prop :=
  ∀ other, weight ("port_" ++ other) = weight ("port_" ++ key) → allowed other n

structure Within (allowed : String → Int → Prop) (c : Cluster ι weight) : Prop where
  numbers : Numbers allowed c
  messages : ∀ job ∈ c.jobs, ∀ message ∈ job.2, FromManager (Spelled weight allowed) message

omit [DecidableEq ι] in
theorem Within.start {peer : ι} {handled : Handled} (hwithin : Within allowed c)
    (hsent : ∀ message ∈ handled.sent, FromManager (Spelled weight allowed) message) :
    Within allowed (c.start peer handled) where
  numbers := hwithin.numbers
  messages := by
    intro job hjob
    rcases List.mem_append.mp hjob with hold | hnew
    · exact hwithin.messages job hold
    · obtain rfl := List.mem_singleton.mp hnew
      exact hsent

theorem Within.step {label : Label ι} (hwithin : Within allowed c)
    (hgives : GivesAllowed leader allowed c label) (hstep : c.step leader label = some c') :
    Within allowed c' := by
  cases label with
  | command machine reaches shell command =>
      obtain rfl := Option.some.inj hstep
      refine ⟨fun place key n hnumber => ?_, ?_⟩
      · exact (hgives place key n hnumber).elim (hwithin.numbers place key n) id
      · rw [jobs_give]
        exact hwithin.messages
  | install machine peer appId repoUrl mode host files =>
      obtain rfl := Option.some.inj hstep
      split
      · exact hwithin
      · rename_i request hrequest
        refine hwithin.start (fromManager_install hrequest (fun key port hport other hweight => ?_)
          host files)
        apply hwithin.numbers machine other port
        rw [number_congr _ hweight, hport]
  | uninstall machine peer appId host files =>
      obtain rfl := Option.some.inj hstep
      split
      · exact hwithin
      · exact hwithin.start (fromManager_uninstall _ host _ files)
  | send i reaches shell =>
      obtain ⟨peer, message, rest, hjob, rfl⟩ := step_send hstep
      refine ⟨fun place key n hnumber => ?_, fun job hmem message' hmessage => ?_⟩
      · dsimp only at hnumber
        rcases give_cases leader peer reaches shell message c place with hsame | hcarried
        · exact hwithin.numbers place key n (hsame ▸ hnumber)
        · have hsent := hwithin.messages _ (List.mem_of_getElem? hjob) message
            List.mem_cons_self
          rw [hcarried] at hnumber
          rcases hsent.number hnumber with hbefore | ⟨own, hweight, hspelled⟩
          · exact hwithin.numbers place key n hbefore
          · exact hspelled key hweight
      · obtain ⟨before, hbefore, hin⟩ := mem_jobs_set hjob hmem hmessage
        exact hwithin.messages before hbefore message' hin

theorem within_of_reachable (hwithin : Within allowed first)
    (hreach : ReachableWhere (Cluster.step leader) (GivesAllowed leader allowed) first c) :
    Within allowed c :=
  hreach.invariant (fun hinv hgives hstep => Within.step hinv hgives hstep) hwithin

/-- Installing and uninstalling apps gives no port a number that it was not given
before, on any machine and in any order of the commands. -/
theorem numbers_of_reachable (hnumbers : Numbers allowed first) (hjobs : first.jobs = [])
    (hreach : ReachableWhere (Cluster.step leader) (GivesAllowed leader allowed) first c) :
    Numbers allowed c := by
  have hwithin : Within allowed first := by
    refine ⟨hnumbers, fun job hjob => ?_⟩
    rw [hjobs] at hjob
    exact absurd hjob List.not_mem_nil
  exact (within_of_reachable hwithin hreach).numbers

/-! ## Installations change no number -/

/-- The manager of job `i` still has to set the port. -/
def Pending (i : ℕ) (c : Cluster ι weight) (key : String) (n : Int) : Prop :=
  ∃ job, c.jobs[i]? = some job ∧ setPortMessage key n ∈ job.2

def KeepsPending (leader : ι) (i : ℕ) (c after : Cluster ι weight) : Prop :=
  ∀ key n, Pending i c key n →
    number (after.registries leader) key = number (c.registries leader) key

/-- Nothing but job `i` itself changes a port that it still has to set. -/
def Undisturbed (leader : ι) (i : ℕ) (c : Cluster ι weight) : Label ι → Prop
  | .command machine reaches shell command =>
      KeepsPending leader i c (c.give leader machine reaches shell command)
  | .install _ _ _ _ _ _ _ | .uninstall _ _ _ _ _ => True
  | .send j reaches shell => j ≠ i → ∀ peer message rest,
      c.jobs[j]? = some (peer, message :: rest) →
        KeepsPending leader i c (c.give leader peer reaches shell message)

/-- What job `i` still has to set is what the leader has. -/
def Agreed (leader : ι) (i : ℕ) (c : Cluster ι weight) : Prop :=
  ∃ job, c.jobs[i]? = some job ∧
    ∀ message ∈ job.2, Sets (fun key n => number (c.registries leader) key = some n) message

theorem registries_give_setPort {place : ι} (hplace : place ≠ leader) (machine : ι)
    (reaches : Bool) (shell : Shell) (key : String) (n : Int) (c : Cluster ι weight) :
    (c.give leader machine reaches shell (setPortMessage key n)).registries place =
      c.registries place := by
  have hforwarded : isForwarded (setPortMessage key n) = true := rfl
  unfold Cluster.give
  dsimp only
  rw [hforwarded, if_pos rfl]
  split
  · rfl
  · exact Function.update_of_ne hplace _ _

theorem number_give_setPort {message : Json}
    (hmessage : Sets (fun key n => number (c.registries leader) key = some n) message)
    (machine : ι) (reaches : Bool) (shell : Shell) (place : ι) (other : String) :
    number ((c.give leader machine reaches shell message).registries place) other =
      number (c.registries place) other := by
  obtain ⟨key, port, rfl, hread, hagreed⟩ := hmessage
  by_cases hplace : place = leader
  · subst hplace
    rcases give_cases place machine reaches shell (setPortMessage key port) c place with
      hsame | hcarried
    · rw [hsame]
    · rw [hcarried, number_setPort shell hread]
      split
      · rename_i hweight
        rw [number_congr _ hweight, hagreed]
      · rfl
  · rw [registries_give_setPort hplace]

omit [DecidableEq ι] in
theorem Agreed.of_keepsPending {i : ℕ} {after : Cluster ι weight} {job job' : ι × List Json}
    (hjob : c.jobs[i]? = some job)
    (hsets : ∀ message ∈ job.2,
      Sets (fun key n => number (c.registries leader) key = some n) message)
    (hkeeps : KeepsPending leader i c after) (hafter : after.jobs[i]? = some job')
    (hsub : ∀ message ∈ job'.2, message ∈ job.2) : Agreed leader i after := by
  refine ⟨job', hafter, fun message hmessage => ?_⟩
  obtain ⟨key, port, rfl, hread, hnumber⟩ := hsets message (hsub message hmessage)
  exact ⟨key, port, rfl, hread,
    (hkeeps key port ⟨job, hjob, hsub _ hmessage⟩).trans hnumber⟩

omit [DecidableEq ι] in
theorem Agreed.start {i : ℕ} (hagreed : Agreed leader i c) (peer : ι) (handled : Handled) :
    Agreed leader i (c.start peer handled) := by
  obtain ⟨job, hjob, hsets⟩ := hagreed
  have hlt := (List.getElem?_eq_some_iff.mp hjob).1
  exact ⟨job, (List.getElem?_append_left hlt).trans hjob, hsets⟩

theorem Agreed.step {i : ℕ} {label : Label ι} (hagreed : Agreed leader i c)
    (hundisturbed : Undisturbed leader i c label) (hstep : c.step leader label = some c') :
    Agreed leader i c' := by
  cases label with
  | command machine reaches shell command =>
      obtain rfl := Option.some.inj hstep
      obtain ⟨job, hjob, hsets⟩ := hagreed
      refine .of_keepsPending hjob hsets hundisturbed ?_ fun _ hmessage => hmessage
      rw [jobs_give]
      exact hjob
  | install machine peer appId repoUrl mode host files =>
      obtain rfl := Option.some.inj hstep
      split
      · exact hagreed
      · exact hagreed.start peer _
  | uninstall machine peer appId host files =>
      obtain rfl := Option.some.inj hstep
      split
      · exact hagreed
      · exact hagreed.start peer _
  | send j reaches shell =>
      obtain ⟨peer, message, rest, hsender, rfl⟩ := step_send hstep
      obtain ⟨job, hjob, hsets⟩ := hagreed
      by_cases hown : j = i
      · subst hown
        obtain rfl : (peer, message :: rest) = job := Option.some.inj (hsender.symm.trans hjob)
        have hlt := (List.getElem?_eq_some_iff.mp hjob).1
        have hkeeps : KeepsPending leader j c (c.give leader peer reaches shell message) :=
          fun other _ _ => number_give_setPort (hsets message List.mem_cons_self) peer reaches
            shell leader other
        exact .of_keepsPending hjob hsets hkeeps (List.getElem?_set_self hlt)
          fun _ hmessage => List.mem_cons_of_mem _ hmessage
      · refine .of_keepsPending hjob hsets (hundisturbed hown peer message rest hsender) ?_
          fun _ hmessage => hmessage
        exact (List.getElem?_set_ne hown).trans hjob

/-- Setting the ports of an app that the leader was asked to install changes no port
number anywhere, in whatever order the commands arrive and whichever are lost, unless
something else changed a port while it was still to be set. -/
theorem number_send_of_reachable {peer : ι} {appId repoUrl mode : String} {host : Host}
    {files : Machine} {request : InstallApp}
    (hrequest : installRequest (first.registries leader) appId repoUrl mode = some request)
    {asked : Cluster ι weight}
    (hasked : first.step leader (.install leader peer appId repoUrl mode host files) =
      some asked)
    (hreach : ReachableWhere (Cluster.step leader) (Undisturbed leader first.jobs.length)
      asked c)
    {reaches : Bool} {shell : Shell}
    (hstep : c.step leader (.send first.jobs.length reaches shell) = some c')
    (machine : ι) (other : String) :
    number (c'.registries machine) other = number (c.registries machine) other := by
  have hstart : Agreed leader first.jobs.length asked := by
    simp only [Cluster.step, hrequest, Option.some.injEq] at hasked
    subst hasked
    exact ⟨_, List.getElem?_concat_length, sets_install hrequest host files⟩
  obtain ⟨job, hjob, hsets⟩ : Agreed leader first.jobs.length c :=
    hreach.invariant (fun hinv hok hnext => Agreed.step hinv hok hnext) hstart
  obtain ⟨sender, message, later, hsender, rfl⟩ := step_send hstep
  obtain rfl : (sender, message :: later) = job := Option.some.inj (hsender.symm.trans hjob)
  exact number_give_setPort (hsets message List.mem_cons_self) sender reaches shell machine other

end

/-- A leader with one port and a worker with none. -/
def cadCluster : Cluster Bool (id : String → String) where
  registries machine :=
    { system_settings :=
        if machine then CollatedTable.empty.upsert "port_cad-prod" "3001"
        else CollatedTable.empty
      extra_apps := CollatedTable.empty }
  jobs := []

def cadRequested : Cluster Bool (id : String → String) :=
  cadCluster.start false (handle_install_app quietHost
    ((installRequest (cadCluster.registries true) "cad" "git@host:me/cad.git" "all").getD
      installDashboard) handWrittenOnly)

theorem step_cadRequested :
    cadCluster.step true (.install true false "cad" "git@host:me/cad.git" "all" quietHost
      handWrittenOnly) = some cadRequested := rfl

def quietShell : Shell where
  system := fun _ => 0
  executeCommand := fun _ => ""

def cadSet : Cluster Bool (id : String → String) :=
  { cadRequested.give true false true quietShell (setPortMessage "cad-prod" 3001) with
    jobs := [(false, [])] }

theorem step_cadSet : cadRequested.step true (.send 0 true quietShell) = some cadSet := rfl

theorem reachable_cadRequested
    {ok : Cluster Bool (id : String → String) → Label Bool → Prop}
    (hinstall : ok cadCluster (.install true false "cad" "git@host:me/cad.git" "all" quietHost
      handWrittenOnly)) :
    ReachableWhere (Cluster.step true) ok cadCluster cadRequested :=
  .single ⟨_, hinstall, step_cadRequested⟩

theorem numbers_cadCluster : Numbers (fun _ n => 3000 ≤ n) cadCluster := by
  intro machine key n hnumber
  cases machine with
  | false =>
      have hnone : number (cadCluster.registries false) key = none := rfl
      rw [hnone] at hnumber
      simp at hnumber
  | true =>
      have hrows : (cadCluster.registries true).system_settings =
          CollatedTable.empty.upsert "port_cad-prod" "3001" := rfl
      have hread : (stoi "3001").toOption = some 3001 := rfl
      rw [number, hrows, get?_upsert] at hnumber
      split at hnumber
      · rw [Option.bind_some, hread] at hnumber
        obtain rfl := Option.some.inj hnumber
        decide
      · have hnone : (CollatedTable.empty : CollatedTable (id : String → String) String).get?
            ("port_" ++ key) = none := rfl
        rw [hnone] at hnumber
        simp at hnumber

theorem cadSet_numbers : Numbers (fun _ n => 3000 ≤ n) cadSet :=
  numbers_of_reachable numbers_cadCluster rfl
    ((reachable_cadRequested trivial).tail ⟨.send 0 true quietShell, trivial, step_cadSet⟩)

/-- The worker is asked for the app as well, which has no port there. -/
def cadAskedTwice : Cluster Bool (id : String → String) :=
  cadRequested.start true (handle_install_app quietHost
    ((installRequest (cadRequested.registries false) "cad" "git@host:me/cad.git" "all").getD
      installDashboard) handWrittenOnly)

theorem step_cadAskedTwice :
    cadRequested.step true (.install false true "cad" "git@host:me/cad.git" "all" quietHost
      handWrittenOnly) = some cadAskedTwice := rfl

theorem cadAskedTwice_sameNumber :
    number ((cadAskedTwice.give true false true quietShell
      (setPortMessage "cad-prod" 3001)).registries true) "cad-prod" =
        number (cadAskedTwice.registries true) "cad-prod" :=
  number_send_of_reachable rfl step_cadRequested
    (.single ⟨.install false true _ _ _ _ _, trivial, step_cadAskedTwice⟩)
    (rfl : cadAskedTwice.step true (.send 0 true quietShell) = some _) _ _

end PortCluster

end AutomateLinux
