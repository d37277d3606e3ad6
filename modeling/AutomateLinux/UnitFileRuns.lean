import AutomateLinux.AppInstallation
import AutomateLinux.ServiceAgreement

/-!
# Unit files over runs of installations

A request visits the files of one service after the other, and what is left of a
service's files depends on the visits of that service only.  The first visit of the
manager to a hand-written file links it; another one, before the service is
uninstalled, loses it.
-/

namespace AutomateLinux

namespace UnitFiles

open ExtraApps

inductive Visit
  | install (content : String)
  | installLocally (content : String) (writable : Bool)
  | uninstall (unlinks : Bool)

def Visit.act (u : ServiceFiles) : Visit → ServiceFiles
  | .install content => (u.install content).2
  | .installLocally content writable => u.installLocally content writable
  | .uninstall unlinks => u.uninstall unlinks

def visit (machine : Machine) (v : String × Visit) : Machine :=
  Function.update machine v.1 (v.2.act (machine v.1))

def visitsOf (svc_name : String) (visits : List (String × Visit)) : List Visit :=
  visits.filterMap fun v => if v.1 = svc_name then some v.2 else none

def LinksLead (machine : Machine) : Prop := ∀ svc_name, (machine svc_name).GeneratedLinked

/-! ## Visits of one service -/

theorem generatedLinked_act {u : ServiceFiles} (hlinked : u.GeneratedLinked) (v : Visit) :
    (v.act u).GeneratedLinked := by
  cases v with
  | install content => exact ServiceFiles.generatedLinked_install hlinked content
  | installLocally content writable =>
      exact ServiceFiles.generatedLinked_installLocally hlinked content writable
  | uninstall unlinks => exact ServiceFiles.generatedLinked_uninstall hlinked unlinks

theorem linksLead_visit {machine : Machine} (hlinks : LinksLead machine) (v : String × Visit) :
    LinksLead (visit machine v) := by
  intro svc_name
  by_cases hname : svc_name = v.1
  · subst hname
    rw [visit, Function.update_self]
    exact generatedLinked_act (hlinks v.1) v.2
  · rw [visit, Function.update_of_ne hname]
    exact hlinks svc_name

theorem linksLead_visits {machine : Machine} (hlinks : LinksLead machine)
    (visits : List (String × Visit)) : LinksLead (visits.foldl visit machine) := by
  induction visits generalizing machine with
  | nil => exact hlinks
  | cons v visits ih => exact ih (linksLead_visit hlinks v)

theorem visits_apply (visits : List (String × Visit)) (machine : Machine) (svc_name : String) :
    visits.foldl visit machine svc_name =
      (visitsOf svc_name visits).foldl Visit.act (machine svc_name) := by
  induction visits generalizing machine with
  | nil => rfl
  | cons v visits ih =>
      rw [List.foldl_cons, ih]
      by_cases hname : v.1 = svc_name
      · subst hname
        simp [visitsOf, visit]
      · have hother : visit machine v svc_name = machine svc_name :=
          Function.update_of_ne (Ne.symm hname) _ _
        simp [visitsOf, hname, hother]

/-- The manager visits the service while it is installed. -/
def reinstalls : Bool → List Visit → Bool
  | _, [] => false
  | installed, .install _ :: visits => installed || reinstalls true visits
  | _, .installLocally _ _ :: visits => reinstalls true visits
  | _, .uninstall _ :: visits => reinstalls false visits

theorem hand_written_act_eq_none {u : ServiceFiles} (hwritten : u.hand_written = none)
    (v : Visit) : (v.act u).hand_written = none := by
  cases v with
  | install content => exact ServiceFiles.hand_written_install_eq_none hwritten content
  | installLocally content writable =>
      rw [Visit.act, ServiceFiles.hand_written_installLocally, hwritten]
  | uninstall unlinks => rw [Visit.act, ServiceFiles.hand_written_uninstall, hwritten]

theorem hand_written_visits_eq_none {u : ServiceFiles} (hwritten : u.hand_written = none)
    (visits : List Visit) : (visits.foldl Visit.act u).hand_written = none := by
  induction visits generalizing u with
  | nil => exact hwritten
  | cons v visits ih => exact ih (hand_written_act_eq_none hwritten v)

theorem hand_written_visits {u : ServiceFiles} {text : String} (hlinked : u.GeneratedLinked)
    (hwritten : u.hand_written = some text) (visits : List Visit) :
    (visits.foldl Visit.act u).hand_written =
      if reinstalls u.exists_ visits then none else some text := by
  induction visits generalizing u with
  | nil => simpa [reinstalls] using hwritten
  | cons v visits ih =>
      rw [List.foldl_cons]
      have hnext := generatedLinked_act hlinked v
      cases v with
      | install content =>
          have hfile := ServiceFiles.hand_written_install hlinked hwritten content
          cases hexists : u.exists_ with
          | true =>
              rw [hexists, if_pos rfl] at hfile
              rw [reinstalls, Bool.true_or, if_pos rfl]
              exact hand_written_visits_eq_none hfile visits
          | false =>
              rw [hexists, if_neg Bool.false_ne_true] at hfile
              rw [ih hnext hfile, Visit.act,
                ServiceFiles.exists_install hlinked hwritten hexists content]
              rfl
      | installLocally content writable =>
          have hfile : (u.installLocally content writable).hand_written = some text := by
            rw [ServiceFiles.hand_written_installLocally, hwritten]
          rw [ih hnext hfile, Visit.act, ServiceFiles.exists_installLocally hwritten]
          rfl
      | uninstall unlinks =>
          have hfile : (u.uninstall unlinks).hand_written = some text := by
            rw [ServiceFiles.hand_written_uninstall, hwritten]
          rw [ih hnext hfile, Visit.act, ServiceFiles.exists_uninstall hlinked hwritten]
          rfl

theorem hand_written_none_install {u : ServiceFiles} (hwritten : u.hand_written = none)
    (content : String) :
    (u.install content).2 = ⟨none, some content, some (.link .generated)⟩ := by
  simp [ServiceFiles.install, hwritten, ServiceFiles.ln_sf]

/-! ## Visits of a request -/

section

variable {weight : String → String} {machine : Machine}

def installVisit (request : InstallApp) (service : Component × String × String) :
    String × Visit :=
  (service.2.2, .install (unit_text request.display_name
    (generated_unit request.services service.1 service.2.1)))

def Request.visits : Request weight → List (String × Visit)
  | .install host request =>
      match clone_or_pull host request with
      | .error _ => []
      | .ok _ => (service_names request.services).map (installVisit request)
  | .uninstall host request =>
      request.serviceNames.map fun svc => (svc, .uninstall (host.unlinks svc))
  | .installLocally settings config appId writable =>
      (handleInstallAppServices settings config appId).map fun named =>
        (named.1, .installLocally (unit_text config.displayName named.2) (writable named.1))

/-- No installation is cut short. -/
theorem install_services_eq (hlinks : LinksLead machine) (request : InstallApp)
    (services : List (Component × String × String)) :
    install_services request services machine =
      (.ok (), (services.map (installVisit request)).foldl visit machine) := by
  induction services generalizing machine with
  | nil => rfl
  | cons service services ih =>
      obtain ⟨component, mode, svc_name⟩ := service
      have hvisit : visitService machine svc_name (unit_text request.display_name
          (generated_unit request.services component mode)) =
          (.ok (), visit machine (installVisit request (component, mode, svc_name))) := by
        rw [visitService, ServiceFiles.install_ok (hlinks svc_name)]
        rfl
      rw [install_services, hvisit, List.map_cons, List.foldl_cons]
      exact ih (linksLead_visit hlinks _)

theorem uninstall_services_eq (host : Host) (names : List String) (machine : Machine) :
    uninstall_services host names machine =
      (names.map fun svc => (svc, Visit.uninstall (host.unlinks svc))).foldl visit machine := by
  induction names generalizing machine with
  | nil => rfl
  | cons svc names ih => exact ih _

theorem installServices_eq (display_name : String) (writable : String → Bool)
    (units : List (String × AppUnit)) (machine : Machine) :
    installServices display_name writable units machine =
      (units.map fun named => (named.1, Visit.installLocally (unit_text display_name named.2)
        (writable named.1))).foldl visit machine := by
  induction units generalizing machine with
  | nil => rfl
  | cons named units ih => exact ih _

theorem handle_eq (hlinks : LinksLead machine) (request : Request weight) :
    handle machine request = request.visits.foldl visit machine := by
  cases request with
  | install host request =>
      rw [handle, handle_install_app, Request.visits]
      cases clone_or_pull host request with
      | error reply => rfl
      | ok cloned =>
          dsimp only
          rw [install_services_eq hlinks]
  | uninstall host request => exact uninstall_services_eq host request.serviceNames machine
  | installLocally settings config appId writable =>
      exact installServices_eq config.displayName writable _ machine

theorem run_eq (hlinks : LinksLead machine) (requests : List (Request weight)) :
    requests.foldl handle machine = (requests.flatMap Request.visits).foldl visit machine := by
  induction requests generalizing machine with
  | nil => rfl
  | cons request requests ih =>
      rw [List.foldl_cons, List.flatMap_cons, List.foldl_append, handle_eq hlinks request]
      exact ih (linksLead_visits hlinks request.visits)

/-- Without a hand-written file, each service is left with the generated unit of its
name. -/
theorem machine_install_app (hlinks : LinksLead machine) {svc_name : String}
    (hwritten : (machine svc_name).hand_written = none) {host : Host} {request : InstallApp}
    {cloned : String × Int} (hcloned : clone_or_pull host request = .ok cloned) {u : AppUnit}
    (hunit : unitNamed (install_service_files request.services) svc_name = some u) :
    (handle_install_app host request machine).machine svc_name =
      ⟨none, some (unit_text request.display_name u), some (.link .generated)⟩ := by
  rw [handle_install_app, hcloned]
  dsimp only
  rw [install_services_eq hlinks]
  rw [install_service_files] at hunit
  dsimp only
  generalize service_names request.services = services at hunit ⊢
  induction services using List.reverseRecOn with
  | nil => simp [unitNamed] at hunit
  | append_singleton services service ih =>
      obtain ⟨component, mode, name⟩ := service
      rw [List.map_append, List.foldl_append]
      simp only [unitNamed, List.map_append, List.reverse_append, List.map_cons, List.map_nil,
        List.reverse_singleton, List.singleton_append] at hunit
      simp only [List.map_cons, List.map_nil, List.foldl_cons, List.foldl_nil, installVisit,
        visit, Visit.act]
      by_cases hname : svc_name = name
      · subst hname
        rw [List.lookup_cons_self, Option.some.injEq] at hunit
        subst hunit
        rw [Function.update_self]
        apply hand_written_none_install
        rw [visits_apply]
        exact hand_written_visits_eq_none hwritten _
      · rw [List.lookup_cons, beq_false_of_ne hname] at hunit
        rw [Function.update_of_ne hname]
        exact ih hunit

/-- Whatever is installed and uninstalled in whatever order, a hand-written unit file is
lost exactly if the manager visits its service while it is installed. -/
theorem hand_written_run (hlinks : LinksLead machine) {svc_name text : String}
    (hwritten : (machine svc_name).hand_written = some text)
    (requests : List (Request weight)) :
    (requests.foldl handle machine svc_name).hand_written =
      if reinstalls (machine svc_name).exists_
        (visitsOf svc_name (requests.flatMap Request.visits)) then none else some text := by
  rw [run_eq hlinks, visits_apply]
  exact hand_written_visits (hlinks svc_name) hwritten _

end

/-- The dashboard as the daemon sends it; its server's template has no mode. -/
def installDashboard : InstallApp where
  app_id := "dashboard"
  display_name := "Dashboard"
  repo_url := "git@host:me/dashboard.git"
  has_server := true
  server_build_subdir := ""
  client_subdir := ""
  client_service_template := "dashboard-\x7bmode\x7d"
  server_service_template := "dashboard-bridge"
  dev_path := "/opt/dev/dashboard"
  prod_path := "/opt/prod/dashboard"
  ports := OrderedMap.empty
  mode := "all"

def quietHost : Host where
  isdir := fun _ => false
  isfile := fun _ => false
  run_command := fun _ _ => (0, "")
  send_to_daemon := fun _ => some "ok"
  unlinks := fun _ => false

def handWrittenOnly : Machine := fun _ => ⟨some "unit", none, none⟩

theorem linksLead_handWrittenOnly : LinksLead handWrittenOnly := by
  intro svc_name hlink
  simp [handWrittenOnly] at hlink

/-- One installation is enough for a service that the app names twice. -/
theorem dashboardBridge_lost :
    (([.install quietHost installDashboard] : List (Request id)).foldl handle handWrittenOnly
      "dashboard-bridge").hand_written = none :=
  (hand_written_run linksLead_handWrittenOnly rfl _).trans (by decide +kernel)

end UnitFiles

end AutomateLinux
