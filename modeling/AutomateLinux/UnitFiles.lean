import Mathlib.Logic.Function.Basic
import Mathlib.Data.List.Basic

/-!
# The unit files of a service

A service can have a hand-written unit file and a generated one, each in its own
directory; what systemd loads is the entry of the system's directory, a link to one
of the two.  The manager of a machine and the daemon both install services, and the
manager takes them away again.

Both installers put a forced link.  The manager makes one before that: a plain link
where nothing can be loaded yet, and otherwise it moves the hand-written file over the
entry, from where the forced link then removes it.  The move is an
`os.replace`, which fails between file systems; all the directories are taken to be on one.
-/

namespace AutomateLinux

namespace UnitFiles

/-- Where a link of the system's directory leads. -/
inductive UnitDir
  | services | generated
deriving DecidableEq

inductive SystemUnit
  | file (content : String)
  | link (dir : UnitDir)
deriving DecidableEq

/-- The files of one service. -/
structure ServiceFiles where
  hand_written : Option String
  generated : Option String
  system_link : Option SystemUnit
deriving DecidableEq

inductive OSError
  | fileExists | fileNotFound
deriving DecidableEq

namespace ServiceFiles

/-- `os.path.exists(system_link)`: a link counts if its target is there. -/
def exists_ (u : ServiceFiles) : Bool :=
  match u.system_link with
  | none => false
  | some (.file _) => true
  | some (.link .services) => u.hand_written.isSome
  | some (.link .generated) => u.generated.isSome

/-- `os.symlink` takes no account of where an entry leads. -/
def symlink (dir : UnitDir) (u : ServiceFiles) : Except OSError Unit × ServiceFiles :=
  match u.system_link with
  | none => (.ok (), { u with system_link := some (.link dir) })
  | some _ => (.error .fileExists, u)

/-- `os.replace(hand_written, system_link)`. -/
def replace (u : ServiceFiles) : Except OSError Unit × ServiceFiles :=
  match u.hand_written with
  | some content =>
      (.ok (), { u with hand_written := none, system_link := some (.file content) })
  | none => (.error .fileNotFound, u)

/-- `ln -sf`, whatever the entry is. -/
def ln_sf (dir : UnitDir) (u : ServiceFiles) : ServiceFiles :=
  { u with system_link := some (.link dir) }

/-- The manager's loop body for one service. -/
def install (content : String) (u : ServiceFiles) : Except OSError Unit × ServiceFiles :=
  if u.hand_written.isSome then
    match if u.exists_ then u.replace else u.symlink .services with
    | (.ok (), u) => (.ok (), u.ln_sf .services)
    | (.error e, u) => (.error e, u)
  else (.ok (), { u with generated := some content }.ln_sf .generated)

/-- The daemon's loop body; a file that cannot be written is reported and left out. -/
def installLocally (content : String) (writable : Bool) (u : ServiceFiles) : ServiceFiles :=
  if u.hand_written.isSome then u.ln_sf .services
  else if writable then { u with generated := some content }.ln_sf .generated
  else u

/-- `systemctl disable` may take the link of a linked unit away. -/
def disable (unlinks : Bool) (u : ServiceFiles) : ServiceFiles :=
  match u.system_link with
  | some (.link _) => if unlinks then { u with system_link := none } else u
  | _ => u

/-- The manager's loop body when an app is uninstalled. -/
def uninstall (unlinks : Bool) (u : ServiceFiles) : ServiceFiles :=
  let u := u.disable unlinks
  let u := if u.exists_ then { u with system_link := none } else u
  { u with generated := none }

/-- A link to a generated file leads to one. -/
def GeneratedLinked (u : ServiceFiles) : Prop :=
  u.system_link = some (.link .generated) → u.generated.isSome

variable {u : ServiceFiles}

theorem exists_eq_isSome (hlinked : u.GeneratedLinked) {content : String}
    (hwritten : u.hand_written = some content) : u.exists_ = u.system_link.isSome := by
  obtain ⟨written, generated, link⟩ := u
  obtain rfl : written = some content := hwritten
  rcases link with - | - | ⟨- | -⟩
  · rfl
  · rfl
  · rfl
  · exact hlinked rfl

theorem install_ok (hlinked : u.GeneratedLinked) (content : String) :
    (u.install content).1 = .ok () := by
  unfold install
  cases hwritten : u.hand_written with
  | none => rfl
  | some text =>
      have hexists := exists_eq_isSome hlinked hwritten
      cases hlink : u.system_link <;>
        simp [hexists, hlink, symlink, replace, hwritten]

theorem generatedLinked_install (hlinked : u.GeneratedLinked) (content : String) :
    (u.install content).2.GeneratedLinked := by
  unfold install
  cases hwritten : u.hand_written with
  | none => exact fun _ => rfl
  | some text =>
      have hexists := exists_eq_isSome hlinked hwritten
      cases hlink : u.system_link <;>
        simp [hexists, hlink, symlink, replace, hwritten, ln_sf, GeneratedLinked]

theorem generatedLinked_installLocally (hlinked : u.GeneratedLinked) (content : String)
    (writable : Bool) : (u.installLocally content writable).GeneratedLinked := by
  unfold installLocally
  split
  · simp [ln_sf, GeneratedLinked]
  · split
    · exact fun _ => rfl
    · exact hlinked

theorem disable_cases (u : ServiceFiles) (unlinks : Bool) :
    u.disable unlinks = { u with system_link := none } ∨ u.disable unlinks = u := by
  unfold disable
  split
  · cases unlinks
    · exact .inr rfl
    · exact .inl rfl
  · exact .inr rfl

theorem generatedLinked_uninstall (hlinked : u.GeneratedLinked) (unlinks : Bool) :
    (u.uninstall unlinks).GeneratedLinked := by
  intro hlink
  rcases disable_cases u unlinks with hdisable | hdisable
  · rw [uninstall, hdisable] at hlink
    simp [exists_] at hlink
  · rw [uninstall, hdisable] at hlink
    cases hexists : u.exists_ with
    | true => simp [hexists] at hlink
    | false =>
        -- a link to a generated file that is left would have to dangle
        simp only [hexists, Bool.false_eq_true, if_false] at hlink
        have hgenerated := hlinked hlink
        simp [exists_, hlink] at hexists
        simp [hexists] at hgenerated

/-! ## What happens to a hand-written file -/

section

variable {text : String}

theorem hand_written_install_eq_none (hwritten : u.hand_written = none) (content : String) :
    (u.install content).2.hand_written = none := by
  simp [install, hwritten, ln_sf]

/-- The first installation keeps the file, the next one loses it. -/
theorem hand_written_install (hlinked : u.GeneratedLinked) (hwritten : u.hand_written = some text)
    (content : String) :
    (u.install content).2.hand_written = if u.exists_ then none else some text := by
  have hexists := exists_eq_isSome hlinked hwritten
  cases hlink : u.system_link <;>
    simp [install, hexists, hlink, symlink, replace, hwritten, ln_sf]

theorem exists_install (hlinked : u.GeneratedLinked) (hwritten : u.hand_written = some text)
    (hexists : u.exists_ = false) (content : String) :
    (u.install content).2.exists_ = true := by
  have hlink := exists_eq_isSome hlinked hwritten
  rw [hexists, eq_comm, Option.isSome_eq_false_iff, Option.isNone_iff_eq_none] at hlink
  simp [install, hwritten, symlink, hlink, ln_sf, exists_]

theorem hand_written_installLocally (u : ServiceFiles) (content : String) (writable : Bool) :
    (u.installLocally content writable).hand_written = u.hand_written := by
  unfold installLocally
  split
  · rfl
  · split <;> rfl

theorem exists_installLocally (hwritten : u.hand_written = some text) (content : String)
    (writable : Bool) : (u.installLocally content writable).exists_ = true := by
  simp [installLocally, hwritten, ln_sf, exists_]

theorem hand_written_uninstall (u : ServiceFiles) (unlinks : Bool) :
    (u.uninstall unlinks).hand_written = u.hand_written := by
  rcases disable_cases u unlinks with hdisable | hdisable <;>
    rw [uninstall, hdisable] <;> dsimp only <;> split <;> rfl

theorem exists_uninstall (hlinked : u.GeneratedLinked) (hwritten : u.hand_written = some text)
    (unlinks : Bool) : (u.uninstall unlinks).exists_ = false := by
  have hfiles := generatedLinked_uninstall hlinked unlinks
  have hkept : (u.uninstall unlinks).hand_written = some text := by
    rw [hand_written_uninstall, hwritten]
  rw [exists_eq_isSome hfiles hkept]
  have hexists := exists_eq_isSome hlinked hwritten
  rcases disable_cases u unlinks with hdisable | hdisable
  · simp [uninstall, hdisable, exists_]
  · cases hlink : u.system_link <;> simp [uninstall, hdisable, hexists, hlink]

end

end ServiceFiles

end UnitFiles

end AutomateLinux
