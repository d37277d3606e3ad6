import AutomateLinux.LeaderLink
import AutomateLinux.LeaderStream

/-!
# The connections to the leader, one after the other

What `handle_leader_data` has read of an unfinished line stays in a variable of
its file until more is read.  It is emptied when a read fails, but the socket is
also closed and replaced by failed sends and by attempts to connect, wherever
they are made.

Every byte in the buffer carries the stamp of the connection it was received on,
which no function looks at.  The loop over the lines of the buffer is a step for
each line: what the commands in them do to the connection comes in between, as
do the other threads.
-/

/-! ## Lines of one owner -/

namespace LineFraming

variable {α β : Type*} (isNewline : α → Bool) (owner : α → β)

/-- From one element to the next the owner changes only after a newline. -/
def Unmixed (stream : List α) : Prop :=
  stream.IsChain fun a b => isNewline a = true ∨ owner a = owner b

variable {isNewline owner}

theorem unmixed_of_one_owner {stream : List α} {b : β} (hall : ∀ a ∈ stream, owner a = b) :
    Unmixed isNewline owner stream := by
  induction stream with
  | nil => exact List.isChain_nil
  | cons a stream ih =>
      refine List.isChain_cons.mpr ⟨fun next hnext => Or.inr ?_, ih fun a' ha' =>
        hall a' (List.mem_cons_of_mem a ha')⟩
      rw [hall a List.mem_cons_self,
        hall next (List.mem_cons_of_mem a (List.mem_of_mem_head? hnext))]

theorem Unmixed.append {first second : List α} {b : β} (hfirst : Unmixed isNewline owner first)
    (hlast : ∀ a ∈ first.getLast?, isNewline a = true ∨ owner a = b)
    (hsecond : ∀ a ∈ second, owner a = b) : Unmixed isNewline owner (first ++ second) := by
  refine List.isChain_append.mpr ⟨hfirst, unmixed_of_one_owner hsecond, ?_⟩
  intro a ha next hnext
  rw [hsecond next (List.mem_of_mem_head? hnext)]
  exact hlast a ha

/-- The elements of a line, its newline included, have one owner. -/
theorem Unmixed.line {line rest : List α} {newline : α}
    (hunmixed : Unmixed isNewline owner (line ++ newline :: rest))
    (hline : ∀ a ∈ line, isNewline a = false) : ∀ a ∈ line, owner a = owner newline := by
  induction line with
  | nil => simp
  | cons a line ih =>
      rw [List.cons_append] at hunmixed
      obtain ⟨hnext, htail⟩ := List.isChain_cons.mp hunmixed
      have hrest := ih htail fun a' ha' => hline a' (List.mem_cons_of_mem a ha')
      intro a' ha'
      rcases List.mem_cons.mp ha' with rfl | hmem
      · have hquiet := hline a' List.mem_cons_self
        cases line with
        | nil =>
            rcases hnext newline (by simp) with hnewline | heq
            · rw [hquiet] at hnewline
              cases hnewline
            · exact heq
        | cons b line =>
            rcases hnext b (by simp) with hnewline | heq
            · rw [hquiet] at hnewline
              cases hnewline
            · exact heq.trans (hrest b List.mem_cons_self)
      · exact hrest a' hmem

theorem Unmixed.rest {line rest : List α} {newline : α}
    (hunmixed : Unmixed isNewline owner (line ++ newline :: rest)) :
    Unmixed isNewline owner rest :=
  hunmixed.suffix ⟨line ++ [newline], by simp⟩

end LineFraming

namespace AutomateLinux

open LeaderStream (isNewline)

/-- The worker's side of its connections to the leader; `extracted` are the lines
taken out of the buffer so far, with their newlines. -/
structure LeaderConnections where
  peers : PeerState
  leader_buffer : List (UInt8 × ℕ)
  extracted : List (List (UInt8 × ℕ))

namespace LeaderConnections

open TransitionSystem

/-- `buffer[bytesRead] = '\0'; leader_buffer += buffer;`. -/
def appendRead (h : Handle) (bytes : List UInt8) (s : LeaderConnections) : LeaderConnections :=
  { s with
    leader_buffer := s.leader_buffer ++
      LeaderStream.tagged h.connection.stamp (bytes.takeWhile fun byte => byte ≠ 0) }

/-- One turn of the loop over the lines, if there is one. -/
def extractLine (s : LeaderConnections) : Option LeaderConnections :=
  (LineFraming.takeLine isNewline s.leader_buffer).map fun (line, newline, rest) =>
    { s with leader_buffer := rest, extracted := s.extracted ++ [line ++ [newline]] }

/-- The failed-read branch of `handle_leader_data`. -/
def readFails (s : LeaderConnections) : LeaderConnections :=
  if s.peers.pm.m_leaderSocket.isNone then s
  else { s with peers := s.peers.leaderReadFails, leader_buffer := [] }

/-- A read of `handle_leader_data`, a line of it, a failed one, and whatever else
is done to the connection. -/
inductive Label
  | readData (bytes : List UInt8)
  | extractLine
  | readFails
  | link (op : LeaderLink.Op)

def step (s : LeaderConnections) : Label → Option LeaderConnections
  | .readData bytes =>
      match s.peers.pm.m_leaderSocket with
      | some h =>
          if bytes ≠ [] ∧ bytes.length < 4096 then some (s.appendRead h bytes) else none
      | none => none
  | .extractLine => s.extractLine
  | .readFails => some s.readFails
  | .link .leaderReadFails => none
  | .link op => (LeaderLink.step s.peers op).map fun peers => { s with peers }

def initial : LeaderConnections := ⟨LeaderLink.initial, [], []⟩

/-- All bytes of a line were received on one connection. -/
def OneConnection (line : List (UInt8 × ℕ)) : Prop :=
  ∀ byte ∈ line, ∀ other ∈ line, byte.2 = other.2

def NothingMixed (s : LeaderConnections) : Prop := ∀ line ∈ s.extracted, OneConnection line

/-- No line is half received. -/
def atLineStart (buffer : List (UInt8 × ℕ)) : Bool := buffer.getLast?.all isNewline

/-- The operation closes the socket, or replaces it. -/
def dropsSocket (s : PeerState) (op : LeaderLink.Op) : Bool :=
  s.pm.m_leaderSocket.any fun h =>
    (LeaderLink.step s op).all fun after => after.pm.m_leaderSocket ≠ some h

/-- Where the socket is dropped other than by a failed read of
`handle_leader_data`, no line is half received. -/
def DropsAtLineStart (s : LeaderConnections) : Label → Prop
  | .link op => dropsSocket s.peers op = true → atLineStart s.leader_buffer = true
  | _ => True

instance (s : LeaderConnections) : (label : Label) → Decidable (DropsAtLineStart s label)
  | .link _ => inferInstanceAs (Decidable (_ → _))
  | .readData _ => isTrue trivial
  | .extractLine => isTrue trivial
  | .readFails => isTrue trivial

/-- The invariant: what is half received is of the connection that is open. -/
structure Inv (s : LeaderConnections) : Prop where
  mixed : NothingMixed s
  buffer : LineFraming.Unmixed isNewline Prod.snd s.leader_buffer
  current : ∀ byte ∈ s.leader_buffer.getLast?, isNewline byte = true ∨
    ∃ h, s.peers.pm.m_leaderSocket = some h ∧ byte.2 = h.connection.stamp

variable {s s' : LeaderConnections}

theorem Inv.appendRead (hinv : Inv s) {h : Handle} (hsocket : s.peers.pm.m_leaderSocket = some h)
    (bytes : List UInt8) : Inv (s.appendRead h bytes) := by
  have hstamp : ∀ byte ∈ LeaderStream.tagged h.connection.stamp
      (bytes.takeWhile fun byte => byte ≠ 0), byte.2 = h.connection.stamp := by
    intro byte hmem
    obtain ⟨_, -, rfl⟩ := List.mem_map.mp hmem
    rfl
  have hlast : ∀ byte ∈ s.leader_buffer.getLast?,
      isNewline byte = true ∨ byte.2 = h.connection.stamp := by
    intro byte hmem
    rcases hinv.current byte hmem with hnewline | ⟨k, hk, hbyte⟩
    · exact Or.inl hnewline
    · obtain rfl : h = k := Option.some.inj (hsocket.symm.trans hk)
      exact Or.inr hbyte
  refine ⟨hinv.mixed, hinv.buffer.append hlast hstamp, ?_⟩
  intro byte hmem
  simp only [LeaderConnections.appendRead, List.getLast?_append, Option.mem_def,
    Option.or_eq_some_iff] at hmem
  rcases hmem with hread | ⟨-, hkept⟩
  · exact Or.inr ⟨h, hsocket, hstamp byte (List.mem_of_getLast? hread)⟩
  · exact hinv.current byte hkept

theorem Inv.extractLine (hinv : Inv s) (hextract : s.extractLine = some s') : Inv s' := by
  unfold LeaderConnections.extractLine at hextract
  obtain ⟨⟨line, newline, rest⟩, htake, rfl⟩ := Option.map_eq_some_iff.mp hextract
  obtain ⟨heq, hline, -⟩ := LineFraming.takeLine_eq_some htake
  have hbuffer := hinv.buffer
  rw [heq] at hbuffer
  have hone : OneConnection (line ++ [newline]) := by
    have howner : ∀ byte ∈ line ++ [newline], byte.2 = newline.2 := by
      intro byte hmem
      rcases List.mem_append.mp hmem with hfront | hback
      · exact hbuffer.line hline byte hfront
      · rw [List.mem_singleton.mp hback]
    exact fun byte hbyte other hother => (howner byte hbyte).trans (howner other hother).symm
  refine ⟨?_, hbuffer.rest, fun byte hmem => hinv.current byte ?_⟩
  · intro extracted hmem
    rcases List.mem_append.mp hmem with hold | hnew
    · exact hinv.mixed extracted hold
    · rw [List.mem_singleton.mp hnew]
      exact hone
  · rw [heq]
    simp [List.getLast?_append, List.getLast?_cons, Option.mem_def.mp hmem]

theorem Inv.link (hinv : Inv s) {op : LeaderLink.Op} {peers : PeerState}
    (hop : LeaderLink.step s.peers op = some peers)
    (hok : dropsSocket s.peers op = true → atLineStart s.leader_buffer = true) :
    Inv { s with peers } := by
  refine ⟨hinv.mixed, hinv.buffer, fun byte hmem => ?_⟩
  rcases hinv.current byte hmem with hnewline | ⟨h, hsocket, hbyte⟩
  · exact Or.inl hnewline
  · by_cases hkept : peers.pm.m_leaderSocket = some h
    · exact Or.inr ⟨h, hkept, hbyte⟩
    · have hline := hok (by simp [dropsSocket, hsocket, hop, hkept])
      rw [atLineStart, Option.mem_def.mp hmem] at hline
      exact Or.inl hline

theorem Inv.step {label : Label} (hinv : Inv s) (hok : DropsAtLineStart s label)
    (hstep : step s label = some s') : Inv s' := by
  cases label with
  | readData bytes =>
      simp only [LeaderConnections.step] at hstep
      split at hstep
      · rename_i h hsocket
        split at hstep
        · obtain rfl := Option.some.inj hstep
          exact hinv.appendRead hsocket bytes
        · contradiction
      · contradiction
  | extractLine => exact hinv.extractLine hstep
  | readFails =>
      obtain rfl := Option.some.inj hstep
      unfold LeaderConnections.readFails
      split
      · exact hinv
      · exact ⟨hinv.mixed, List.isChain_nil, by simp⟩
  | link op =>
      obtain ⟨peers, hop, rfl⟩ : ∃ peers, LeaderLink.step s.peers op = some peers ∧
          { s with peers } = s' := by
        cases op <;> first | exact Option.map_eq_some_iff.mp hstep | contradiction
      exact hinv.link hop hok

theorem inv_initial : Inv initial :=
  ⟨by simp [NothingMixed, initial], List.isChain_nil, by simp [initial]⟩

/-- In every run in which the socket is only dropped between two lines, but for
the failed reads of `handle_leader_data`, no line is ever put together from two
connections. -/
theorem allStates_nothingMixed (labels : List Label)
    (hdrops : AllSteps step DropsAtLineStart initial labels) :
    AllStates step NothingMixed initial labels := by
  have hrun : ∀ s, Inv s → AllSteps step DropsAtLineStart s labels →
      AllStates step NothingMixed s labels := by
    clear hdrops
    induction labels with
    | nil => exact fun s hinv _ => hinv.mixed
    | cons label labels ih =>
        intro s hinv hdrops
        refine ⟨hinv.mixed, fun next hnext => ?_⟩
        obtain ⟨hok, hrest⟩ := hdrops next hnext
        exact ih next (hinv.step hok hnext) hrest
  exact hrun initial inv_initial hdrops

/-- A line arrives whole, a failed heartbeat drops the connection and another one
is made. -/
def droppedBetweenLines : List Label :=
  [.link (.registerWorker "laptop" (.connected true)), .readData [97, 10], .extractLine,
    .link (.reconnectHeartbeat false), .link (.reconnectAttempt (.connected true)),
    .readData [98, 10], .extractLine]

theorem droppedBetweenLines_nothingMixed :
    AllStates step NothingMixed initial droppedBetweenLines :=
  allStates_nothingMixed droppedBetweenLines (by decide +kernel)

/-- The same with half a line: the line `ab` has its first letter from one
connection and its second from the other. -/
def droppedInLine : List Label :=
  [.link (.registerWorker "laptop" (.connected true)), .readData [97],
    .link (.reconnectHeartbeat false), .link (.reconnectAttempt (.connected true)),
    .readData [98, 10], .extractLine]

theorem droppedInLine_mixes : ¬ ∀ labels, AllStates step NothingMixed initial labels := by
  intro hall
  have hrun : (execute step initial droppedInLine).any (fun s =>
      s.extracted = [[(97, 0), (98, 1), (10, 1)]]) = true := by
    decide +kernel
  obtain ⟨final, hfinal, hextracted⟩ := (Option.any_eq_true _ _).mp hrun
  have hmixed : NothingMixed final := (hall droppedInLine).last hfinal
  have hline := hmixed [(97, 0), (98, 1), (10, 1)] (by
    rw [of_decide_eq_true hextracted]
    exact List.mem_singleton_self _)
  exact absurd (hline (97, 0) (by simp) (98, 1) (by simp)) (by decide)

end LeaderConnections

end AutomateLinux
