import AutomateLinux.AppShutdown

/-!
# Deployments

`deployToProd` checks a commit out in an app's prod directory, rebuilds the server there
and restarts the services.  Whether the tools have succeeded is read off what they print.
A checkout prints the subjects of the commit and of the one that is left, so a deployment
can be given up after the commit has been checked out.
-/

namespace AutomateLinux

namespace Deployment

open ExtraApps

/-- What is checked out in an app's prod directory, the commit whose server the build
directory holds, and the commits whose client and server run. -/
structure Prod where
  commit : String
  built : Option String
  client : Option String
  server : Option String
deriving DecidableEq

/-- Whether the commit has been checked out, and whether `make` has left a server. -/
structure Outcome where
  moved : Bool
  made : Bool

section

variable {weight : String → String}

def getAppPath (s : Registry weight) (appId mode : String) : String :=
  match getAppConfig s appId with
  | none => ""
  | some cfg => if mode = "prod" then cfg.prodPath else cfg.devPath

/-! ## Building -/

/-- The report, and what the build directory holds afterwards. -/
def buildCppComponent (shell : Shell) (made : Bool) (path commit : String)
    (built : Option String) : String × Option String :=
  let buildDir := path ++ "/build"
  let removed : Bool := shell.system ("/usr/bin/rm -rf " ++ buildDir) = 0
  let result := "  Path: " ++ path ++ "\n" ++
    (if removed then "" else "  Warning: Failed to remove old build directory\n") ++
    "  Clean: OK\n"
  let built := if removed then none else built
  if shell.system ("/usr/bin/mkdir -p " ++ buildDir) ≠ 0 then
    (result ++ "Error: Failed to create build directory\n", built)
  else
    let cmakeOutput :=
      shell.executeCommand ("cd " ++ buildDir ++ " && /usr/bin/cmake .. 2>&1")
    if occursIn "Error" cmakeOutput || occursIn "error" cmakeOutput then
      (result ++ "CMake output:\n" ++ cmakeOutput ++ "\n", built)
    else
      let result := result ++ "  CMake: OK\n"
      let makeOutput :=
        shell.executeCommand ("cd " ++ buildDir ++ " && /usr/bin/make -j$(nproc) 2>&1")
      let built := if made then some commit else built
      if occursIn "Error" makeOutput || occursIn "error:" makeOutput then
        (result ++ "Make output:\n" ++ makeOutput ++ "\n", built)
      else (result ++ "  Make: OK\n" ++ "Build complete.\n", built)

def buildServerComponent (shell : Shell) (made : Bool) (appId mode commit : String)
    (s : Registry weight) (built : Option String) : String × Option String :=
  match getAppConfig s appId with
  | none => ("Error: Unknown app: " ++ appId ++ "\n", built)
  | some cfg =>
      if !cfg.hasServerComponent || cfg.serverBuildSubdir = "" then
        ("Error: App " ++ appId ++ " has no server component to build\n", built)
      else
        let (report, built) := buildCppComponent shell made
          (getAppPath s appId mode ++ "/" ++ cfg.serverBuildSubdir) commit built
        ("Building " ++ appId ++ " server (" ++ mode ++ ")...\n" ++ report, built)

/-! ## Deploying -/

/-- `commit.substr(0, 7)`. -/
def shortHash (commit : String) : String := String.ofList (commit.toList.take 7)

/-- The output that counts as a failure of git. -/
def fails (output : String) : Bool := occursIn "fatal" output || occursIn "error" output

/-- Step 1: the commit with the report, or the result that ends the request. -/
def chooseCommit (shell : Shell) (config : AppConfig) (commit : String) :
    CmdResult ⊕ String × String :=
  if commit = "" then
    let commit := trimRight (shell.executeCommand
      ("cd " ++ config.devPath ++ " && /usr/bin/git rev-parse HEAD 2>&1"))
    if commit = "" || occursIn "fatal" commit then
      .inl ⟨1, "Failed to get commit from dev: " ++ commit ++ "\n"⟩
    else .inr (commit, "  Using latest dev commit: " ++ shortHash commit ++ "\n")
  else .inr (commit, "  Using specified commit: " ++ shortHash commit ++ "\n")

/-- Step 2. -/
def worktreeClean (shell : Shell) (config : AppConfig) : Bool :=
  let statusOutput := shell.executeCommand
    ("cd " ++ config.prodPath ++ " && /usr/bin/git status --porcelain 2>&1")
  statusOutput = "" || occursIn "fatal" statusOutput

def checkoutCmd (config : AppConfig) (commit : String) : String :=
  "cd " ++ config.prodPath ++ " && /usr/bin/git checkout " ++ commit ++ " 2>&1"

/-- The app has a server that is built. -/
def isBuilt (config : AppConfig) : Bool :=
  config.hasServerComponent && config.serverBuildSubdir ≠ ""

/-- Step 4. -/
def rebuildServer (shell : Shell) (made : Bool) (appId : String) (config : AppConfig)
    (s : Registry weight) (p : Prod) : (CmdResult ⊕ String) × Prod :=
  if isBuilt config then
    let (buildResult, built) :=
      buildServerComponent shell made appId "prod" p.commit s p.built
    let p := { p with built }
    if occursIn "Build complete" buildResult then
      (.inr ("  Rebuilding server...\n" ++ "  Build: OK\n"), p)
    else (.inl ⟨1, "Build failed:\n" ++ buildResult⟩, p)
  else (.inr "", p)

def stopServices (config : AppConfig) (p : Prod) : Prod :=
  { p with
    client := if config.clientServiceTemplate ≠ "" then none else p.client
    server := if hasServerService config then none else p.server }

/-- What the server's service runs when it is started. -/
def serverCode (config : AppConfig) (p : Prod) : Option String :=
  if isBuilt config then p.built else some p.commit

def startService (shell : Shell) (template appId : String) : Bool :=
  shell.system ("/usr/bin/systemctl start " ++ resolveServiceName template appId "prod" ++
    " 2>/dev/null") = 0

/-- A start that fails is reported like one that succeeds. -/
def startServices (shell : Shell) (appId : String) (config : AppConfig) (p : Prod) :
    String × Prod :=
  let started (template : String) : String :=
    "  Started " ++ resolveServiceName template appId "prod" ++ "\n"
  let server :=
    if hasServerService config && startService shell config.serverServiceTemplate appId then
      serverCode config p
    else p.server
  let client :=
    if config.clientServiceTemplate ≠ "" && startService shell config.clientServiceTemplate appId
    then some p.commit
    else p.client
  ((if hasServerService config then started config.serverServiceTemplate else "") ++
      (if config.clientServiceTemplate ≠ "" then started config.clientServiceTemplate else ""),
    { p with server, client })

/-- Step 5: the services are stopped before the port is read. -/
def restartServices (shell : Shell) (appId : String) (config : AppConfig) (s : Registry weight)
    (p : Prod) : Except Exn String × Prod :=
  let p := stopServices config p
  let portStr := getSetting s.system_settings (clientPortKey config "prod")
  match if portStr = "" then .ok () else (stoi portStr).map fun _ => () with
  | .error e => (.error e, p)
  | .ok () =>
      let (report, p) := startServices shell appId config p
      (.ok report, p)

/-- Steps 3 to 5. -/
def deployCommit (shell : Shell) (outcome : Outcome) (appId : String) (config : AppConfig)
    (commit result : String) (s : Registry weight) (p : Prod) : Except Exn CmdResult × Prod :=
  let checkoutOutput := shell.executeCommand (checkoutCmd config commit)
  let p := if outcome.moved then { p with commit } else p
  if fails checkoutOutput then
    (.ok ⟨1, "Failed to checkout commit:\n" ++ checkoutOutput ++ "\n"⟩, p)
  else
    match rebuildServer shell outcome.made appId config s p with
    | (.inl failure, p) => (.ok failure, p)
    | (.inr built, p) =>
        match restartServices shell appId config s p with
        | (.error e, p) => (.error e, p)
        | (.ok restarted, p) =>
            (.ok ⟨0, result ++ "  Checkout: OK\n" ++ built ++ "  Restarting services...\n" ++
              restarted ++ "\nDeploy complete!\n"⟩, p)

def handleDeployToProd (shell : Shell) (outcome : Outcome) (command : Json)
    (s : Registry weight) (p : Prod) : Except Exn CmdResult × Prod :=
  match command.find? "app" with
  | none => (.ok ⟨1, "Missing required argument: --app\n"⟩, p)
  | some member =>
      match member.getString, optionalArg command "commit" Json.getString "" with
      | .error e, _ => (.error e, p)
      | .ok _, .error e => (.error e, p)
      | .ok appId, .ok commit =>
          match getAppConfig s appId with
          | none => (.ok ⟨1, "Unknown app: " ++ appId ++ "\n"⟩, p)
          | some config =>
              if config.prodPath = "" then
                (.ok ⟨1, "App " ++ appId ++ " has no prod path configured\n"⟩, p)
              else
                match chooseCommit shell config commit with
                | .inl failure => (.ok failure, p)
                | .inr (commit, chosen) =>
                    if worktreeClean shell config then
                      deployCommit shell outcome appId config commit
                        ("Deploying " ++ appId ++ " to prod...\n" ++ chosen) s p
                    else
                      (.ok ⟨1, "Prod worktree has uncommitted changes. Aborting.\n" ++
                        "Run: git -C " ++ config.prodPath ++ " status\n"⟩, p)

end

/-! ## What git prints -/

theorem occursIn_iff {text output : String} :
    occursIn text output = true ↔ text.toList <:+: output.toList := by
  unfold occursIn
  simp only [List.any_eq_true, List.mem_tails, List.isPrefixOf_iff_prefix]
  rw [List.infix_iff_prefix_suffix]
  exact exists_congr fun rest => and_comm

theorem occursIn_spaced {text : String} (htext : ' ' ∉ text.toList) (before after : String) :
    occursIn text (before ++ " " ++ after) = (occursIn text before || occursIn text after) := by
  rw [Bool.eq_iff_iff, Bool.or_eq_true, occursIn_iff, occursIn_iff, occursIn_iff]
  simpa using TextOperations.infix_append_cons_iff htext

theorem occursIn_lines {text : String} (htext : '\n' ∉ text.toList) (before after : String) :
    occursIn text (before ++ "\n" ++ after) = (occursIn text before || occursIn text after) := by
  rw [Bool.eq_iff_iff, Bool.or_eq_true, occursIn_iff, occursIn_iff, occursIn_iff]
  simpa using TextOperations.infix_append_cons_iff htext

theorem fails_spaced (before after : String) :
    fails (before ++ " " ++ after) = (fails before || fails after) := by
  unfold fails
  rw [occursIn_spaced (by decide), occursIn_spaced (by decide)]
  ac_rfl

theorem fails_lines (before after : String) :
    fails (before ++ "\n" ++ after) = (fails before || fails after) := by
  unfold fails
  rw [occursIn_lines (by decide), occursIn_lines (by decide)]
  ac_rfl

/-- The names that git gives to commits, in hexadecimal digits, and their subjects. -/
structure Git where
  short : String → String
  subject : String → String
  hex : ∀ commit, ∀ c ∈ (short commit).toList, c ∈ "0123456789abcdef".toList

namespace Git

variable (git : Git)

/-- What is printed when a commit is checked out by its name, without the last line
break; the one that is left is mentioned. -/
def checkoutOutput (head commit : String) : String :=
  (if head = commit then ""
    else "Previous HEAD position was" ++ " " ++ git.short head ++ " " ++ git.subject head ++ "\n") ++
  ("HEAD is now at" ++ " " ++ git.short commit ++ " " ++ git.subject commit)

/-- The subject does not look like a failure. -/
def plain (commit : String) : Bool := !fails (git.subject commit)

/-- A checkout that does not look like a failure. -/
def passes (head commit : String) : Bool :=
  git.plain commit && (decide (head = commit) || git.plain head)

theorem fails_short (commit : String) : fails (git.short commit) = false := by
  have hnot : ∀ {text : String} {c : Char}, c ∈ text.toList → c ∉ "0123456789abcdef".toList →
      occursIn text (git.short commit) = false := by
    intro text c hc hhex
    refine Bool.eq_false_iff.mpr fun hoccurs => hhex (git.hex commit c ?_)
    exact (occursIn_iff.mp hoccurs).subset hc
  unfold fails
  rw [hnot (c := 't') (by decide) (by decide), hnot (c := 'r') (by decide) (by decide)]
  rfl

theorem fails_named (line commit : String) (hline : fails line = false) :
    fails (line ++ " " ++ git.short commit ++ " " ++ git.subject commit) = !git.plain commit := by
  rw [fails_spaced, fails_spaced, hline, git.fails_short, plain, Bool.not_not]
  rfl

theorem fails_checkoutOutput (head commit : String) :
    fails (git.checkoutOutput head commit) = !git.passes head commit := by
  unfold checkoutOutput passes
  have hnow := git.fails_named "HEAD is now at" commit (by decide)
  split
  · rename_i heq
    rw [String.empty_append, hnow, decide_eq_true heq]
    simp
  · rename_i hne
    rw [fails_lines, git.fails_named "Previous HEAD position was" head (by decide), hnow,
      decide_eq_false hne]
    cases git.plain head <;> cases git.plain commit <;> rfl

end Git

/-! ## One deployment -/

/-- A request to deploy, with the registry and the tools it meets. -/
structure Request (weight : String → String) where
  registry : Registry weight
  shell : Shell
  outcome : Outcome
  command : Json

section

variable {weight : String → String} (git : Git) (builds : String → Bool) (appId : String)
  (config : AppConfig)

def deploy (request : Request weight) (p : Prod) : Except Exn CmdResult × Prod :=
  handleDeployToProd request.shell request.outcome request.command request.registry p

/-- The deployment reports its end. -/
def Completes (request : Request weight) (p : Prod) : Prop :=
  ∃ text, (deploy request p).1 = .ok ⟨0, text⟩

/-- The app's services run the commit. -/
structure Runs (p : Prod) (commit : String) : Prop where
  client : config.clientServiceTemplate ≠ "" → p.client = some commit
  server : hasServerService config = true → p.server = some commit

/-- The request deploys a commit that exists, from a clean worktree and with a port that
can be read; git prints what it prints, a build succeeds as far as the commit lets it,
and the services start. -/
structure Deploys (commit : String) (request : Request weight) (p : Prod) : Prop where
  app : request.command.find? "app" = some (.string appId)
  registered : getAppConfig request.registry appId = some config
  available : config.prodPath ≠ ""
  chosen : ∃ requested report,
    optionalArg request.command "commit" Json.getString "" = .ok requested ∧
      chooseCommit request.shell config requested = .inr (commit, report)
  clean : worktreeClean request.shell config = true
  moved : request.outcome.moved = true
  printed : request.shell.executeCommand (checkoutCmd config commit) =
    git.checkoutOutput p.commit commit
  reported : isBuilt config = true → occursIn "Build complete" (buildServerComponent request.shell
    request.outcome.made appId "prod" commit request.registry p.built).1 = builds commit
  built : isBuilt config = true → builds commit = true → (buildServerComponent request.shell
    request.outcome.made appId "prod" commit request.registry p.built).2 = some commit
  starts : ∀ template, startService request.shell template appId = true
  port : ReadablePort (getSetting request.registry.system_settings (clientPortKey config "prod"))

/-- Whether a deployment of the commit is carried through, from another commit. -/
def carriedThrough (head commit : String) : Bool :=
  git.passes head commit && (!isBuilt config || builds commit)

end

section

variable {weight : String → String} {git : Git} {builds : String → Bool} {appId commit : String}
  {config : AppConfig} {request : Request weight} {p : Prod}

theorem Runs.keep {q : Prod} (hruns : Runs config p commit) (hclient : q.client = p.client)
    (hserver : q.server = p.server) : Runs config q commit :=
  ⟨fun h => hclient.trans (hruns.client h), fun h => hserver.trans (hruns.server h)⟩

theorem restartServices_of_deploys (hdeploys : Deploys git builds appId config commit request p)
    {q : Prod} (hcommit : q.commit = commit)
    (hbuilt : isBuilt config = true → q.built = some commit) :
    ∃ report q', restartServices request.shell appId config request.registry q = (.ok report, q') ∧
      q'.commit = commit ∧ Runs config q' commit := by
  have hcode : serverCode config (stopServices config q) = some commit := by
    unfold serverCode
    split
    · rename_i hbuild
      exact hbuilt hbuild
    · exact congrArg some hcommit
  unfold restartServices
  dsimp only
  have hread : (if getSetting request.registry.system_settings (clientPortKey config "prod") = ""
      then .ok () else (stoi (getSetting request.registry.system_settings
        (clientPortKey config "prod"))).map fun _ => ()) = (.ok () : Except Exn Unit) := by
    split
    · rfl
    · rename_i hne
      obtain ⟨port, hport⟩ := hdeploys.port.resolve_left hne
      rw [hport]
      rfl
  rw [hread]
  refine ⟨_, _, rfl, hcommit, ?_, ?_⟩
  · intro hclient
    simp [startServices, hclient, hdeploys.starts, stopServices, hcommit]
  · intro hserver
    simp [startServices, hserver, hdeploys.starts, hcode]

/-- The checks that come before the checkout. -/
theorem deploy_eq (hdeploys : Deploys git builds appId config commit request p) :
    ∃ report, deploy request p = deployCommit request.shell request.outcome appId config commit
      report request.registry p := by
  obtain ⟨requested, report, hrequested, hchosen⟩ := hdeploys.chosen
  unfold deploy handleDeployToProd
  rw [hdeploys.app]
  dsimp only
  rw [getString_string, hrequested]
  dsimp only
  rw [hdeploys.registered]
  dsimp only
  rw [if_neg hdeploys.available, hchosen]
  dsimp only
  rw [if_pos hdeploys.clean]
  exact ⟨_, rfl⟩

theorem rebuildServer_of_deploys (hdeploys : Deploys git builds appId config commit request p)
    (hbuilds : (!isBuilt config || builds commit) = true) :
    ∃ report q, rebuildServer request.shell request.outcome.made appId config request.registry
        { p with commit } = (.inr report, q) ∧
      q.commit = commit ∧ (isBuilt config = true → q.built = some commit) := by
  unfold rebuildServer
  cases hbuilt : isBuilt config with
  | false => exact ⟨_, _, rfl, rfl, nofun⟩
  | true =>
      rw [hbuilt] at hbuilds
      have hcommit : builds commit = true := by simpa using hbuilds
      dsimp only
      rw [if_pos rfl, hdeploys.reported hbuilt, if_pos hcommit]
      exact ⟨_, _, rfl, rfl, fun _ => hdeploys.built hbuilt hcommit⟩

theorem rebuildServer_of_not_builds
    (hdeploys : Deploys git builds appId config commit request p)
    (hbuilds : (!isBuilt config || builds commit) = false) :
    ∃ text built, rebuildServer request.shell request.outcome.made appId config request.registry
        { p with commit } = (.inl ⟨1, text⟩, { p with commit, built }) := by
  obtain ⟨hbuilt, hcommit⟩ : isBuilt config = true ∧ builds commit = false := by
    simpa using hbuilds
  unfold rebuildServer
  dsimp only
  rw [if_pos hbuilt, hdeploys.reported hbuilt, hcommit]
  exact ⟨_, _, rfl⟩

/-- What a deployment leaves: the commit is checked out, and only if the deployment is
carried through it runs. -/
structure Left (git : Git) (builds : String → Bool) (config : AppConfig) (commit : String)
    (request : Request weight) (p : Prod) : Prop where
  checkedOut : (deploy request p).2.commit = commit
  through : carriedThrough git builds config p.commit commit = true →
    Completes request p ∧ Runs config (deploy request p).2 commit
  broken : carriedThrough git builds config p.commit commit = false →
    ¬ Completes request p ∧ (deploy request p).2.client = p.client ∧
      (deploy request p).2.server = p.server

theorem left_of_failure {text : String} {built : Option String}
    (hthrough : carriedThrough git builds config p.commit commit = false)
    (hdeploy : deploy request p = (.ok ⟨1, text⟩, { p with commit, built })) :
    Left git builds config commit request p := by
  refine ⟨by rw [hdeploy], fun h => absurd (hthrough.symm.trans h) Bool.false_ne_true, fun _ => ?_⟩
  refine ⟨?_, by rw [hdeploy], by rw [hdeploy]⟩
  rintro ⟨text', htext⟩
  rw [hdeploy] at htext
  cases htext

theorem left_of_deploys (hdeploys : Deploys git builds appId config commit request p) :
    Left git builds config commit request p := by
  obtain ⟨report, hdeploy⟩ := deploy_eq hdeploys
  unfold deployCommit at hdeploy
  dsimp only at hdeploy
  rw [hdeploys.printed, git.fails_checkoutOutput, hdeploys.moved, if_pos rfl] at hdeploy
  cases hpasses : git.passes p.commit commit with
  | false =>
      rw [hpasses] at hdeploy
      exact left_of_failure (by rw [carriedThrough, hpasses]; rfl) hdeploy
  | true =>
      rw [hpasses, if_neg (by decide)] at hdeploy
      cases hbuilds : !isBuilt config || builds commit with
      | false =>
          obtain ⟨text, built, hrebuild⟩ := rebuildServer_of_not_builds hdeploys hbuilds
          rw [hrebuild] at hdeploy
          exact left_of_failure (by rw [carriedThrough, hbuilds, Bool.and_false]) hdeploy
      | true =>
          obtain ⟨built, q, hrebuild, hcommit, hbuilt⟩ := rebuildServer_of_deploys hdeploys hbuilds
          obtain ⟨restarted, q', hrestart, hcommit', hruns⟩ :=
            restartServices_of_deploys hdeploys hcommit hbuilt
          rw [hrebuild] at hdeploy
          dsimp only at hdeploy
          rw [hrestart] at hdeploy
          dsimp only at hdeploy
          refine ⟨by rw [hdeploy, hcommit'], fun _ => ⟨⟨_, by rw [hdeploy]⟩, ?_⟩, fun h => ?_⟩
          · rw [hdeploy]
            exact hruns
          · rw [carriedThrough, hpasses, hbuilds] at h
            cases h

/-! ## Runs of deployments -/

/-- Deployments of the commits one after the other. -/
inductive Deployments (git : Git) (builds : String → Bool) (appId : String)
    (config : AppConfig) : Prod → List (String × Request weight) → Prod → Prop
  | nil (p : Prod) : Deployments git builds appId config p [] p
  | cons {p q : Prod} {commit : String} {request : Request weight}
      {rest : List (String × Request weight)}
      (first : Deploys git builds appId config commit request p)
      (others : Deployments git builds appId config (deploy request p).2 rest q) :
      Deployments git builds appId config p ((commit, request) :: rest) q

/-- The commit that was deployed last. -/
def lastDeployed (head : String) (commits : List String) : String :=
  (commits.getLast?).getD head

/-- The last of the commits whose deployment was carried through. -/
def lastCarriedThrough (git : Git) (builds : String → Bool) (config : AppConfig) :
    String → List String → Option String
  | _, [] => none
  | head, commit :: commits =>
      (lastCarriedThrough git builds config commit commits).or
        (if carriedThrough git builds config head commit then some commit else none)

/-- The services run the commit, or what they ran before if there is none. -/
def RunsOr (config : AppConfig) (before p : Prod) : Option String → Prop
  | some commit => Runs config p commit
  | none => p.client = before.client ∧ p.server = before.server

theorem RunsOr.keep {before q : Prod} {last : Option String} (hruns : RunsOr config before p last)
    (hclient : q.client = p.client) (hserver : q.server = p.server) :
    RunsOr config before q last := by
  cases last with
  | none => exact ⟨hclient.trans hruns.1, hserver.trans hruns.2⟩
  | some commit => exact Runs.keep hruns hclient hserver

theorem Deployments.run {q : Prod} {deployed : List (String × Request weight)}
    (hrun : Deployments git builds appId config p deployed q) :
    q.commit = lastDeployed p.commit (deployed.map Prod.fst) ∧
      RunsOr config p q
        (lastCarriedThrough git builds config p.commit (deployed.map Prod.fst)) := by
  induction hrun with
  | nil p => exact ⟨rfl, rfl, rfl⟩
  | @cons p q commit request rest hfirst _ ih =>
      obtain ⟨hcommit, hruns⟩ := ih
      have hleft := left_of_deploys hfirst
      rw [hleft.checkedOut] at hcommit hruns
      refine ⟨?_, ?_⟩
      · rw [hcommit, lastDeployed, lastDeployed, List.map_cons, List.getLast?_cons]
        rfl
      · rw [List.map_cons, lastCarriedThrough]
        cases hlast : lastCarriedThrough git builds config commit (rest.map Prod.fst) with
        | some later =>
            rw [hlast] at hruns
            exact hruns
        | none =>
            rw [hlast] at hruns
            obtain ⟨hclient, hserver⟩ := hruns
            cases hthrough : carriedThrough git builds config p.commit commit with
            | false =>
                obtain ⟨-, hclient', hserver'⟩ := hleft.broken hthrough
                exact ⟨hclient.trans hclient', hserver.trans hserver'⟩
            | true =>
                obtain ⟨-, hruns'⟩ := hleft.through hthrough
                exact hruns'.keep hclient hserver

theorem carriedThrough_iff {head : String} :
    carriedThrough git builds config head commit = true ↔
      git.plain commit = true ∧ (isBuilt config = true → builds commit = true) ∧
        (head = commit ∨ git.plain head = true) := by
  unfold carriedThrough Git.passes
  cases isBuilt config with
  | false => simp
  | true =>
      simp
      tauto

end

def ptConfig : AppConfig :=
  ⟨"pt", "Public Transportation", false, "", "pt-\x7bmode\x7d", "pt", "",
    "/opt/dev/publicTransportation", "/opt/prod/publicTransportation", "",
    "frontend/public-transportation"⟩

/-- The second commit mentions errors. -/
def exampleGit : Git where
  short := fun _ => "1a2b3c4"
  subject := fun commit => if commit = "b2" then "show error pages" else "add a map"
  hex := by
    have hdigits : "1a2b3c4".toList.all (fun c => decide (c ∈ "0123456789abcdef".toList)) = true :=
      by decide
    exact fun _ c hc => of_decide_eq_true (List.all_eq_true.mp hdigits c hc)

def deployPt (head commit : String) : Request id where
  registry := ⟨CollatedTable.empty, CollatedTable.empty⟩
  shell := ⟨fun _ => 0, fun cmd =>
    if cmd = checkoutCmd ptConfig commit then exampleGit.checkoutOutput head commit else ""⟩
  outcome := ⟨true, false⟩
  command := .object [("app", .string "pt"), ("commit", .string commit)]

theorem deploys_deployPt {p : Prod} {head commit : String} (hhead : p.commit = head)
    (hcommit : commit = "b2" ∨ commit = "c3") :
    Deploys exampleGit (fun _ => true) "pt" ptConfig commit (deployPt head commit) p := by
  have hclean : worktreeClean (deployPt head commit).shell ptConfig = true := by
    have hne : "cd " ++ ptConfig.prodPath ++ " && /usr/bin/git status --porcelain 2>&1" ≠
        checkoutCmd ptConfig commit := by
      rcases hcommit with rfl | rfl <;> decide +kernel
    unfold worktreeClean deployPt
    dsimp only
    rw [if_neg hne]
    rfl
  have hchosen : chooseCommit (deployPt head commit).shell ptConfig commit =
      .inr (commit, "  Using specified commit: " ++ shortHash commit ++ "\n") := by
    rcases hcommit with rfl | rfl <;> rfl
  exact
    { app := rfl
      registered := rfl
      available := by decide
      chosen := ⟨_, _, rfl, hchosen⟩
      clean := hclean
      moved := rfl
      printed := by rw [hhead]; exact if_pos rfl
      reported := nofun
      built := nofun
      starts := fun _ => rfl
      port := Or.inl rfl }

end Deployment

end AutomateLinux
