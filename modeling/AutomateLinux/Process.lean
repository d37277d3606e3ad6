import AutomateLinux.DescriptorTable
import AutomateLinux.MainCommand

/-!
# The descriptors of the daemon process

Variables and maps of the daemon record descriptors as bare numbers.  To say
what a recorded number is supposed to denote, every connection carries a stamp
that is never used twice, and a recorded number is modelled together with the
connection it denoted when it was recorded.  Nothing the daemon does depends on
that second component.
-/

namespace AutomateLinux

/-- What the daemon has a descriptor for. -/
inductive Purpose
  | listener | client | peer | leader | outgoing | other
deriving DecidableEq

structure Connection where
  stamp : ℕ
  purpose : Purpose
deriving DecidableEq

/-- The open descriptors, and how many there have ever been. -/
structure Process where
  fds : DescriptorTable Connection
  opened : ℕ
deriving DecidableEq

/-- A recorded descriptor number with the connection it then denoted. -/
structure Handle where
  fd : Fd
  connection : Connection
deriving DecidableEq

/-- The recorded number is open and still denotes the same connection. -/
def Handle.Live (h : Handle) (p : Process) : Prop :=
  p.fds.lookup h.fd = some h.connection

instance (h : Handle) (p : Process) : Decidable (h.Live p) :=
  inferInstanceAs (Decidable (_ = _))

namespace Process

/-- Open a descriptor: the lowest free number. -/
def open_ (p : Process) (purpose : Purpose) : Handle × Process :=
  (⟨p.fds.lowestFree, ⟨p.opened, purpose⟩⟩,
    ⟨p.fds.openLowest ⟨p.opened, purpose⟩, p.opened + 1⟩)

def close (p : Process) (fd : Fd) : Process := { p with fds := p.fds.close fd }

end Process

section

variable {h : Handle} {p : Process}

theorem Process.open_live (p : Process) (purpose : Purpose) :
    (p.open_ purpose).1.Live (p.open_ purpose).2 := by
  simp [Handle.Live, Process.open_]

@[simp] theorem Process.open_purpose (p : Process) (purpose : Purpose) :
    (p.open_ purpose).1.connection.purpose = purpose := rfl

theorem Handle.Live.ne_open (hlive : h.Live p) (purpose : Purpose) :
    h.fd ≠ (p.open_ purpose).1.fd :=
  DescriptorTable.ne_lowestFree_of_lookup hlive

theorem Handle.Live.open_ (hlive : h.Live p) (purpose : Purpose) :
    h.Live (p.open_ purpose).2 := by
  have hne := hlive.ne_open purpose
  simp only [Process.open_] at hne
  simpa [Handle.Live, Process.open_, hne] using hlive

theorem Handle.Live.close_of_ne (hlive : h.Live p) {fd : Fd}
    (hne : h.fd ≠ fd) : h.Live (p.close fd) := by
  simpa [Handle.Live, Process.close, hne] using hlive

theorem Handle.Live.close_of_purpose (hlive : h.Live p) {fd : Fd}
    (hpurpose : ∀ c, p.fds.lookup fd = some c →
      c.purpose ≠ h.connection.purpose) : h.Live (p.close fd) := by
  refine hlive.close_of_ne ?_
  rintro rfl
  exact hpurpose h.connection hlive rfl

theorem Handle.Live.fd_ne {k : Handle} (hk : k.Live p) (hh : h.Live p)
    (hpurpose : k.connection.purpose ≠ h.connection.purpose) : k.fd ≠ h.fd := by
  intro heq
  unfold Handle.Live at hk hh
  rw [heq, hh] at hk
  exact hpurpose (by rw [Option.some.inj hk])

end

end AutomateLinux
