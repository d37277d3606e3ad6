import AutomateLinux.JsonValue
import AutomateLinux.CommandRegistry
import AutomateLinux.LineFraming

/-!
# The connection between a worker and its leader

A worker forwards commands to its leader on the connection on which the leader
pushes commands of its own.  Each direction is a FIFO stream of bytes.  Nothing
in the streams says which command a text answers: a function that forwards a
command takes whatever one read returns for the reply, and `handle_leader_data`
frames whatever it reads into lines and dispatches those that are commands.

The model follows one connection.  Every byte carries what it belongs to, which
no function of the worker looks at.  A read may return any number of the unread
bytes that fits its buffer: this is how texts arrive late or in several
segments.
-/

namespace AutomateLinux

/-- What a byte from the leader belongs to: the reply to a forwarded command, a
pushed command, or a text the leader writes unasked, such as its complaint about
a response that is no JSON. -/
inductive Origin
  | reply (id : ℕ) | push (id : ℕ) | notice
deriving DecidableEq

/-- The functions that write a command to the leader and read once. -/
inductive Forwarder
  | peerManager | cmdPort | registration
deriving DecidableEq

def Forwarder.bufferSize : Forwarder → ℕ
  | .peerManager => 16384
  | .cmdPort => 8192
  | .registration => 1024

/-- Whether the command is written under `m_leaderCommMutex`. -/
def Forwarder.locks : Forwarder → Bool
  | .cmdPort => false
  | _ => true

/-- The string a call returns as its reply: `string(buffer, n)`, `string(buffer)`
or nothing. -/
def Forwarder.result (id : ℕ) (bytes : List UInt8) :
    Forwarder → List (ℕ × List UInt8)
  | .peerManager => [(id, bytes)]
  | .cmdPort => [(id, bytes.takeWhile fun byte => byte ≠ 0)]
  | .registration => []

/-- A call that has written its command and waits for the reply. -/
structure Call where
  id : ℕ
  forwarder : Forwarder

/-- A command as the leader has read it, and all that it writes as its reply. -/
structure Answer where
  id : ℕ
  line : List UInt8
  text : List UInt8

/-- `sent`, `answers` and `pushed` are what the parties have written and
`returned` and `dispatched` what the worker has made of it, all from the
start of the connection on; the numbers in them are positions in `sent` and
`pushed`. -/
structure LeaderStream where
  toLeader : List (UInt8 × ℕ)
  unread : List (UInt8 × Origin)
  waiting : List Call
  leader_buffer : List (UInt8 × Origin)
  sent : List (List UInt8)
  answers : List Answer
  pushed : List (ℕ × Json)
  returned : List (ℕ × List UInt8)
  dispatched : List (Origin × Json)

namespace LeaderStream

def isNewline {τ : Type*} (byte : UInt8 × τ) : Bool := byte.1 = 10

def tagged {τ : Type*} (owner : τ) (text : List UInt8) : List (UInt8 × τ) :=
  text.map fun byte => (byte, owner)

/-- What `dump()` returns: control characters are escaped. -/
def isDumped (line : List UInt8) : Bool :=
  !line.isEmpty && line.all fun byte => 32 ≤ byte

/-- `dump() + "\n"`. -/
def written (line : List UInt8) : List UInt8 := line ++ [10]

/-- The text `mainCommand` writes for a result's message. -/
def response (message : List UInt8) : List UInt8 :=
  if message.isEmpty || message.getLast? = some 10 then message
  else message ++ [10]

/-! ## The functions of the worker -/

/-- `PeerManager::forwardToLeader` keeps the mutex until it returns. -/
def isLocked (s : LeaderStream) : Bool :=
  s.waiting.any fun call => call.forwarder = .peerManager

def finishCall (id : ℕ) (s : LeaderStream) : LeaderStream :=
  { s with waiting := s.waiting.filter fun call => call.id ≠ id }

/-- The command in a line of the leader, with what the line belongs to. -/
def commandIn (parse : List UInt8 → Option Json)
    (line : List (UInt8 × Origin)) : Option (Origin × Json) :=
  match line.head?, received parse (line.map Prod.fst) with
  | some byte, some j =>
      if j.is_object && j.contains COMMAND_KEY then some (byte.2, j) else none
  | _, _ => none

/-- `buffer[bytesRead] = '\0'; leader_buffer += buffer;` and the loop over the
lines of the buffer. -/
def handle_leader_data (parse : List UInt8 → Option Json)
    (chunk : List (UInt8 × Origin)) (s : LeaderStream) : LeaderStream :=
  let stream := s.leader_buffer ++ chunk.takeWhile fun byte => byte.1 ≠ 0
  { s with
    leader_buffer := LineFraming.remainder isNewline stream
    dispatched := s.dispatched ++
      (LineFraming.lines isNewline stream).filterMap (commandIn parse) }

/-! ## The transition system -/

inductive Label
  | forward (forwarder : Forwarder) (line : List UInt8)
  | forwardReads (id : ℕ) (n : ℕ)
  | forwardTimesOut (id : ℕ)
  | mainReads (n : ℕ)
  | leaderReplies (message : List UInt8)
  | leaderPushes (line : List UInt8)
  | leaderNotifies (message : List UInt8)

def step (parse : List UInt8 → Option Json) (s : LeaderStream) :
    Label → Option LeaderStream
  | .forward forwarder line =>
      if isDumped line && !(forwarder.locks && isLocked s) then
        some
          { s with
            toLeader := s.toLeader ++ tagged s.sent.length (written line)
            waiting := s.waiting ++ [⟨s.sent.length, forwarder⟩]
            sent := s.sent ++ [line] }
      else none
  | .forwardReads id n =>
      match s.waiting.find? fun call => call.id = id with
      | some call =>
          if 0 < n ∧ n ≤ s.unread.length ∧
              n < call.forwarder.bufferSize then
            some
              { finishCall id s with
                unread := s.unread.drop n
                returned := s.returned ++
                  call.forwarder.result id ((s.unread.take n).map Prod.fst) }
          else none
      | none => none
  | .forwardTimesOut id => some (finishCall id s)
  | .mainReads n =>
      if 0 < n ∧ n ≤ s.unread.length ∧ n < 4096 then
        some
          { handle_leader_data parse (s.unread.take n) s with
            unread := s.unread.drop n }
      else none
  | .leaderReplies message =>
      match LineFraming.takeLine isNewline s.toLeader with
      | some (line, newline, rest) =>
          some
            { s with
              toLeader := rest
              answers := s.answers ++
                [⟨newline.2, line.map Prod.fst, response message⟩]
              unread := s.unread ++ tagged (.reply newline.2) (response message) }
      | none => none
  | .leaderPushes line =>
      match parse line with
      | some j =>
          if isDumped line && j.is_object && j.contains COMMAND_KEY then
            some
              { s with
                pushed := s.pushed ++ [(s.pushed.length, j)]
                unread := s.unread ++
                  tagged (.push s.pushed.length) (written line) }
          else none
      | none => none
  | .leaderNotifies message =>
      some { s with unread := s.unread ++ tagged .notice (response message) }

/-- The connection as `connect` leaves it. -/
def initial : LeaderStream :=
  ⟨[], [], [], [], [], [], [], [], []⟩

/-! ## What the streams are for -/

def pushOf : Origin × Json → Option (ℕ × Json)
  | (.push id, j) => some (id, j)
  | _ => none

/-- The pushed commands the worker has dispatched, in order. -/
def pushesDispatched (s : LeaderStream) : List (ℕ × Json) :=
  s.dispatched.filterMap pushOf

/-- A string returned as the reply to a command is all the leader has written
in reply to that command, and the pushed commands are dispatched in order, none
twice, and none is left out once everything is read. -/
structure Matched (s : LeaderStream) : Prop where
  replies : ∀ id text, (id, text) ∈ s.returned →
    ∃ line, s.sent[id]? = some line ∧ ⟨id, line, text⟩ ∈ s.answers
  pushes : pushesDispatched s <+: s.pushed
  allPushes : s.unread = [] → pushesDispatched s = s.pushed

/-- When a call reads, nothing but the reply to its command is unread and the
read takes all of it; the main loop takes no byte of a reply a call waits for;
and what is read as a C string has no null byte in it. -/
def Undisturbed (s : LeaderStream) : Label → Prop
  | .forwardReads id n =>
      (∀ byte ∈ s.unread, byte.2 = .reply id) ∧ n = s.unread.length ∧
        ∀ call ∈ s.waiting, call.id = id → call.forwarder = .cmdPort →
          ∀ byte ∈ s.unread, byte.1 ≠ 0
  | .mainReads n =>
      ∀ byte ∈ s.unread.take n, byte.1 ≠ 0 ∧
        ∀ call ∈ s.waiting, byte.2 ≠ .reply call.id
  | _ => True

instance (s : LeaderStream) : (label : Label) → Decidable (Undisturbed s label)
  | .forwardReads _ _ => inferInstanceAs (Decidable (_ ∧ _ ∧ _))
  | .mainReads _ => inferInstanceAs (Decidable (∀ _ ∈ _, _))
  | .forward _ _ => isTrue trivial
  | .forwardTimesOut _ => isTrue trivial
  | .leaderReplies _ => isTrue trivial
  | .leaderPushes _ => isTrue trivial
  | .leaderNotifies _ => isTrue trivial

end LeaderStream

end AutomateLinux
