import AutomateLinux.CollatedTable
import AutomateLinux.DaemonServer
import AutomateLinux.StandardLibrary
import AutomateLinux.ThrowingSort
import Mathlib.Data.List.DropRight
import Mathlib.Data.String.Basic

/-!
# The listing of the peers

A registration stores the address a peer gives as it is, provided that the
database takes the row; what the database refuses is logged only.  The listing
sorts the rows by the number after the last dot of the address, and reads that
number inside the comparison.
-/

namespace AutomateLinux

namespace PeerListing

open ThrowingSort

structure PeerRow where
  record : PeerRecord
  last_seen : String

variable {ω : Type*} [LinearOrder ω] {weight : String → ω}

/-! ## Registrations -/

/-- A `registerPeer` command, the time it comes at and whether the database takes
the row. -/
structure Registration where
  command : Json
  now : String
  stored : Bool

def upsertPeer (reg : Registration) (peer_id : String) (record : PeerRecord)
    (t : CollatedTable weight PeerRow) : CollatedTable weight PeerRow :=
  if reg.stored then t.upsert peer_id ⟨record, reg.now⟩ else t

def handleRegisterPeer (isLeader : Bool) (reg : Registration)
    (t : CollatedTable weight PeerRow) : Except Exn CmdResult × CollatedTable weight PeerRow :=
  if !isLeader then (.ok ⟨1, "This daemon is not the leader.\n"⟩, t)
  else
    match DaemonServer.peerRecord reg.command with
    | .error e => (.error e, t)
    | .ok (peer_id, record) =>
        (.ok ⟨0, "Peer registered: " ++ peer_id ++ "\n"⟩, upsertPeer reg peer_id record t)

/-- The table the leader has after the registrations. -/
def registerAll (regs : List Registration) (t : CollatedTable weight PeerRow) :
    CollatedTable weight PeerRow :=
  regs.foldl (fun t reg => (handleRegisterPeer true reg t).2) t

/-- The peer a registration is about, when the leader accepts it. -/
def accepted (reg : Registration) : Option (String × PeerRecord) :=
  (DaemonServer.peerRecord reg.command).toOption

def registeredPeers (regs : List Registration) : List String :=
  regs.filterMap fun reg => (accepted reg).map Prod.fst

theorem handleRegisterPeer_snd (reg : Registration) (t : CollatedTable weight PeerRow) :
    (handleRegisterPeer true reg t).2 =
      match accepted reg with
      | none => t
      | some (peer_id, record) => upsertPeer reg peer_id record t := by
  unfold handleRegisterPeer accepted
  cases DaemonServer.peerRecord reg.command <;> rfl

/-! ## The listing -/

/-- How the time of the listing compares with a time stamp: whether it is within
the twenty seconds of the query, and the seconds since, if the text is a time. -/
structure Clock where
  fresh : String → Bool
  secondsSince : String → Option Int

structure ListedPeer where
  peer_id : String
  record : PeerRecord
  last_seen : String

/-- The rows the query returns, up to the row it fails at. -/
def selectRows (fault : Option ℕ) (t : CollatedTable weight PeerRow) :
    List (String × PeerRow) :=
  let rows := t.rows.mergeSort fun a b => decide (weight a.1 ≤ weight b.1)
  match fault with
  | none => rows
  | some count => rows.take count

def listedPeer (clock : Clock) (row : String × PeerRow) : ListedPeer :=
  ⟨row.1,
    { row.2.record with
      is_online := row.2.record.is_online && clock.fresh row.2.last_seen },
    row.2.last_seen⟩

def getAllPeers (clock : Clock) (fault : Option ℕ) (t : CollatedTable weight PeerRow) :
    List ListedPeer :=
  (selectRows fault t).map (listedPeer clock)

def getLastOctet (ip : String) : Except Exn Int :=
  if '.' ∈ ip.toList then
    stoi (String.ofList (ip.toList.rtakeWhile fun c => c ≠ '.'))
  else .ok 0

def online (clock : Clock) (peer : ListedPeer) : Bool :=
  if peer.record.is_online && !peer.last_seen.isEmpty then
    match clock.secondsSince peer.last_seen with
    | some seconds => !(120 < seconds)
    | none => true
  else peer.record.is_online

def entry (clock : Clock) (peer : ListedPeer) : Json :=
  .object
    [("peer_id", .string peer.peer_id),
      ("ip_address", .string peer.record.ip_address),
      ("mac_address", .string peer.record.mac_address),
      ("hostname", .string peer.record.hostname),
      ("last_seen", .string peer.last_seen),
      ("is_online", .boolean (online clock peer)),
      ("daemon_version", .number_integer peer.record.daemon_version)]

def octetOf (peer : ListedPeer) : Except Exn Int := getLastOctet peer.record.ip_address

section

variable (sort : ThrowingSort Exn ListedPeer Int) (dump : Json → String) (clock : Clock)
  (fault : Option ℕ)

def sortedPeers (t : CollatedTable weight PeerRow) : Except Exn (List ListedPeer) :=
  sort.sort (lessByKey octetOf) (getAllPeers clock fault t)

def handleListPeers (isLeader isConnectedToLeader : Bool) (forwardToLeader : Json → String)
    (t : CollatedTable weight PeerRow) : Except Exn CmdResult :=
  if !isLeader && isConnectedToLeader then
    let response := forwardToLeader (.object [("command", .string "listPeers")])
    if response.isEmpty then .ok ⟨1, "No response from leader\n"⟩ else .ok ⟨0, response⟩
  else do
    let peers ← sortedPeers sort clock fault t
    return ⟨0, dump (.array (peers.map (entry clock))) ++ "\n"⟩

end

/-- The command succeeds with a list that has every registered peer once and is
ordered by the last octet. -/
def ListsEveryPeer (weight : String → ω) (dump : Json → String) (clock : Clock)
    (registered : List String) (sorted : Except Exn (List ListedPeer))
    (result : Except Exn CmdResult) : Prop :=
  ∃ peers, sorted = .ok peers ∧
    result = .ok ⟨0, dump (.array (peers.map (entry clock))) ++ "\n"⟩ ∧
    (∀ peer_id ∈ registered,
      peers.countP (fun peer => weight peer.peer_id = weight peer_id) = 1) ∧
    OrderedByKey octetOf peers

/-- Every registered peer had a row or a registration that the database stored, no
failure of the query cuts its row off, and the query returns one row at most or only
addresses whose last octet is a number. -/
structure Listable (fault : Option ℕ) (regs : List Registration)
    (t : CollatedTable weight PeerRow) : Prop where
  stored : ∀ peer_id ∈ registeredPeers regs,
    t.contains peer_id = true ∨
      ∃ reg ∈ regs, reg.stored = true ∧
        ∃ peer ∈ accepted reg, weight peer.1 = weight peer_id
  reached : ∀ peer_id ∈ registeredPeers regs, ∀ count ∈ fault,
    (registerAll regs t).rows.countP (fun row => weight row.1 < weight peer_id) < count
  readable : (selectRows fault (registerAll regs t)).length ≤ 1 ∨
    ∀ row ∈ selectRows fault (registerAll regs t),
      ∃ octet, getLastOctet row.2.record.ip_address = .ok octet

/-! ## What the registrations leave -/

theorem contains_handleRegisterPeer (reg : Registration) (t : CollatedTable weight PeerRow)
    (peer_id : String) :
    (handleRegisterPeer true reg t).2.contains peer_id = true ↔
      t.contains peer_id = true ∨
        reg.stored = true ∧ ∃ peer ∈ accepted reg, weight peer.1 = weight peer_id := by
  rw [handleRegisterPeer_snd]
  cases accepted reg with
  | none => simp
  | some peer =>
      dsimp only [upsertPeer]
      by_cases hstored : reg.stored = true
      · rw [if_pos hstored, CollatedTable.contains_upsert, or_comm,
          eq_comm (a := weight peer_id)]
        simp [hstored]
      · rw [if_neg hstored]
        simp [hstored]

theorem contains_registerAll (regs : List Registration) (t : CollatedTable weight PeerRow)
    (peer_id : String) :
    (registerAll regs t).contains peer_id = true ↔
      t.contains peer_id = true ∨
        ∃ reg ∈ regs, reg.stored = true ∧
          ∃ peer ∈ accepted reg, weight peer.1 = weight peer_id := by
  unfold registerAll
  induction regs generalizing t with
  | nil => simp
  | cons reg regs ih =>
      rw [List.foldl_cons, ih, contains_handleRegisterPeer, List.exists_mem_cons_iff, or_assoc]

/-- Among rows in order, a row is one of the first if few rows are before it. -/
theorem mem_take_iff_countP {β : Type*} {key : β → ω} {rows : List β}
    (hordered : rows.Pairwise fun a b => key a < key b) (row : β) (hrow : row ∈ rows)
    (count : ℕ) :
    row ∈ rows.take count ↔ rows.countP (fun other => key other < key row) < count := by
  induction rows generalizing count with
  | nil => simp at hrow
  | cons first rest ih =>
      obtain ⟨hfirst, hrest⟩ := List.pairwise_cons.mp hordered
      cases count with
      | zero => simp
      | succ count =>
          rcases List.mem_cons.mp hrow with rfl | hmem
          · have hnone : rest.countP (fun other => key other < key row) = 0 := by
              rw [List.countP_eq_zero]
              intro other hother
              simp [(hfirst other hother).le]
            simp [hnone]
          · have hne : row ≠ first := by
              rintro rfl
              exact lt_irrefl _ (hfirst row hmem)
            rw [List.take_succ_cons, List.mem_cons, or_iff_right hne, ih hrest hmem,
              List.countP_cons_of_pos (by simpa using hfirst row hmem)]
            omega

theorem pairwise_mergeSort_rows (t : CollatedTable weight PeerRow) :
    (t.rows.mergeSort fun a b => decide (weight a.1 ≤ weight b.1)).Pairwise
      fun a b => weight a.1 < weight b.1 := by
  have hperm := List.mergeSort_perm t.rows fun a b => decide (weight a.1 ≤ weight b.1)
  have hnodup := (hperm.map fun row => weight row.1).nodup_iff.mpr t.unique
  have hsorted : (t.rows.mergeSort fun a b => decide (weight a.1 ≤ weight b.1)).Pairwise
      fun a b => decide (weight a.1 ≤ weight b.1) = true :=
    List.pairwise_mergeSort
      (fun a b c hab hbc => by
        simp only [decide_eq_true_eq] at *
        exact hab.trans hbc)
      (fun a b => by simpa using le_total (weight a.1) (weight b.1)) t.rows
  rw [List.Nodup, List.pairwise_map] at hnodup
  refine (hsorted.and hnodup).imp ?_
  rintro a b ⟨hle, hne⟩
  exact lt_of_le_of_ne (by simpa using hle) hne

theorem exists_selectRows_iff (fault : Option ℕ) (t : CollatedTable weight PeerRow)
    (peer_id : String) :
    (∃ row ∈ selectRows fault t, weight row.1 = weight peer_id) ↔
      t.contains peer_id = true ∧
        ∀ count ∈ fault, t.rows.countP (fun row => weight row.1 < weight peer_id) < count := by
  have hperm := List.mergeSort_perm t.rows fun a b => decide (weight a.1 ≤ weight b.1)
  rw [CollatedTable.contains_iff]
  cases fault with
  | none => simp [selectRows]
  | some count =>
      have hmem := fun row hrow => mem_take_iff_countP (pairwise_mergeSort_rows t) row hrow count
      simp only [selectRows, Option.mem_some_iff, forall_eq']
      constructor
      · rintro ⟨row, hrow, hweight⟩
        have hfull := List.mem_of_mem_take hrow
        refine ⟨⟨row, hperm.mem_iff.mp hfull, hweight⟩, ?_⟩
        rw [← hweight, ← hperm.countP_eq]
        exact (hmem row hfull).mp hrow
      · rintro ⟨⟨row, hrow, hweight⟩, hcount⟩
        refine ⟨row, (hmem row (hperm.mem_iff.mpr hrow)).mpr ?_, hweight⟩
        rwa [hperm.countP_eq, hweight]

/-! ## What the listing has -/

theorem nodup_selectRows (fault : Option ℕ) (t : CollatedTable weight PeerRow) :
    ((selectRows fault t).map fun row => weight row.1).Nodup := by
  have hperm := List.mergeSort_perm t.rows fun a b => decide (weight a.1 ≤ weight b.1)
  have hnodup := (hperm.map fun row => weight row.1).nodup_iff.mpr t.unique
  cases fault with
  | none => exact hnodup
  | some count => exact hnodup.sublist ((List.take_sublist count _).map _)

theorem countP_weight_eq_one_iff {peers : List ListedPeer} {peer_id : String}
    (hnodup : (peers.map fun peer => weight peer.peer_id).Nodup) :
    peers.countP (fun peer => weight peer.peer_id = weight peer_id) = 1 ↔
      ∃ peer ∈ peers, weight peer.peer_id = weight peer_id := by
  have hcount : peers.countP (fun peer => weight peer.peer_id = weight peer_id) =
      (peers.map fun peer => weight peer.peer_id).count (weight peer_id) := by
    rw [List.count, List.countP_map]
    rfl
  rw [hcount, ← List.mem_map (f := fun peer : ListedPeer => weight peer.peer_id)]
  constructor
  · intro hone
    exact List.count_pos_iff.mp (by omega)
  · exact List.count_eq_one_of_mem hnodup

theorem exists_sortedPeers_iff (sort : ThrowingSort Exn ListedPeer Int) (clock : Clock)
    (fault : Option ℕ) (t : CollatedTable weight PeerRow) :
    (∃ peers, sortedPeers sort clock fault t = .ok peers) ↔
      (selectRows fault t).length ≤ 1 ∨
        ∀ row ∈ selectRows fault t,
          ∃ octet, getLastOctet row.2.record.ip_address = .ok octet := by
  unfold sortedPeers
  rw [sort_ok_iff, getAllPeers, List.length_map, List.forall_mem_map]
  rfl

theorem countP_sortedPeers_iff {sort : ThrowingSort Exn ListedPeer Int} {clock : Clock}
    {fault : Option ℕ} {t : CollatedTable weight PeerRow} {peers : List ListedPeer}
    (hsort : sortedPeers sort clock fault t = .ok peers) (peer_id : String) :
    peers.countP (fun peer => weight peer.peer_id = weight peer_id) = 1 ↔
      ∃ row ∈ selectRows fault t, weight row.1 = weight peer_id := by
  have hperm := (perm_and_ordered_of_sort sort hsort).1
  have hkeys : (getAllPeers clock fault t).map (fun peer => weight peer.peer_id) =
      (selectRows fault t).map fun row => weight row.1 := by
    rw [getAllPeers, List.map_map]
    rfl
  have hnodup : ((getAllPeers clock fault t).map fun peer => weight peer.peer_id).Nodup :=
    hkeys ▸ nodup_selectRows fault t
  rw [hperm.countP_eq, countP_weight_eq_one_iff hnodup, getAllPeers]
  constructor
  · rintro ⟨peer, hpeer, hweight⟩
    obtain ⟨row, hrow, rfl⟩ := List.mem_map.mp hpeer
    exact ⟨row, hrow, hweight⟩
  · rintro ⟨row, hrow, hweight⟩
    exact ⟨listedPeer clock row, List.mem_map_of_mem hrow, hweight⟩

theorem listsEveryPeer_registerAll_iff (sort : ThrowingSort Exn ListedPeer Int)
    (dump : Json → String) (clock : Clock) (fault : Option ℕ) (isConnectedToLeader : Bool)
    (forwardToLeader : Json → String) (regs : List Registration)
    (t : CollatedTable weight PeerRow) :
    ListsEveryPeer weight dump clock (registeredPeers regs)
        (sortedPeers sort clock fault (registerAll regs t))
        (handleListPeers sort dump clock fault true isConnectedToLeader forwardToLeader
          (registerAll regs t)) ↔
      Listable fault regs t := by
  have hpresent := exists_selectRows_iff fault (registerAll regs t)
  constructor
  · rintro ⟨peers, hsort, -, hcount, -⟩
    have hrow := fun peer_id hmem =>
      (hpresent peer_id).mp ((countP_sortedPeers_iff hsort peer_id).mp (hcount peer_id hmem))
    refine ⟨?_, fun peer_id hmem => (hrow peer_id hmem).2, ?_⟩
    · intro peer_id hmem
      exact (contains_registerAll regs t peer_id).mp (hrow peer_id hmem).1
    · exact (exists_sortedPeers_iff sort clock fault _).mp ⟨peers, hsort⟩
  · intro hlistable
    obtain ⟨peers, hsort⟩ :=
      (exists_sortedPeers_iff sort clock fault _).mpr hlistable.readable
    refine ⟨peers, hsort, ?_, ?_, (perm_and_ordered_of_sort sort hsort).2⟩
    · unfold handleListPeers
      rw [hsort]
      rfl
    · intro peer_id hmem
      have hcontains :=
        (contains_registerAll regs t peer_id).mpr (hlistable.stored peer_id hmem)
      exact (countP_sortedPeers_iff hsort peer_id).mpr
        ((hpresent peer_id).mpr ⟨hcontains, hlistable.reached peer_id hmem⟩)

/-- A registration that gives an address. -/
def registering (peer_id ip : String) : Registration :=
  ⟨.object [("command", .string "registerPeer"), ("peer_id", .string peer_id),
      ("ip", .string ip)], "2026-01-01 00:00:00", true⟩

def noClock : Clock := ⟨fun _ => true, fun _ => none⟩

def noPeers : CollatedTable (id : String → String) PeerRow := CollatedTable.empty

def twoPeers : List Registration :=
  [registering "desk" "10.0.0.2", registering "guest" "10.0.0.x"]

/-- The last octet of one peer is no number: no peer is listed. -/
theorem lettersInAddress_hideEveryPeer :
    ¬ ∀ regs : List Registration, (∀ reg ∈ regs, reg.stored = true) →
      ListsEveryPeer (id : String → String) (fun _ => "") noClock (registeredPeers regs)
        (sortedPeers (insertion Exn ListedPeer Int) noClock none
          (registerAll regs noPeers))
        (handleListPeers (insertion Exn ListedPeer Int) (fun _ => "") noClock none true false
          (fun _ => "") (registerAll regs noPeers)) := by
  intro hall
  obtain ⟨peers, hsort, -⟩ := hall twoPeers (by decide)
  have hreadable := (exists_sortedPeers_iff _ noClock none _).mp ⟨peers, hsort⟩
  have hperm : (selectRows none (registerAll twoPeers noPeers)).Perm
      (registerAll twoPeers noPeers).rows := List.mergeSort_perm _ _
  have hlength : (registerAll twoPeers noPeers).rows.length = 2 := by decide +kernel
  have hguest : ∃ row ∈ (registerAll twoPeers noPeers).rows,
      (getLastOctet row.2.record.ip_address).isOk = false := by decide +kernel
  obtain ⟨row, hrow, hfails⟩ := hguest
  rcases hreadable with hfew | hevery
  · rw [hperm.length_eq, hlength] at hfew
    omega
  · obtain ⟨octet, hoctet⟩ := hevery row (hperm.mem_iff.mpr hrow)
    rw [hoctet] at hfails
    cases hfails

end PeerListing

end AutomateLinux
