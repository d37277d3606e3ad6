import AutomateLinux.ExecStream
import AutomateLinux.LeaderStreamMatching

/-!
# Answers and the calls that get them

What is on its way to the peer are whole requests, each with the command of its call.
Of an answer that a call waits for, a connection has every byte or none.  A call that
reads while one answer to its request is all there is gets that answer whole.
-/

namespace AutomateLinux

namespace ExecStream

open TransitionSystem LineFraming
open LeaderStream (isNewline tagged isDumped written response map_fst_tagged
  snd_of_mem_tagged tagged_written not_newline_of_isDumped)
open DaemonServer (cString cString_of_no_nul)
open ExecOnPeer (requestFor)

/-! ## Outputs -/

theorem zero_not_mem_cString (bytes : List UInt8) : (0 : UInt8) ∉ cString bytes := by
  intro hmem
  have hne := List.mem_takeWhile_imp hmem
  simp at hne

theorem zero_not_mem_utf8 {text : String} (hnul : text.toList.all (· ≠ '\x00') = true) :
    (0 : UInt8) ∉ utf8 text := by
  intro hmem
  have hchar := (Utf8.mem_encode_iff Utf8.encodeChar_nul).mp hmem
  simpa using List.all_eq_true.mp hnul _ hchar

theorem zero_not_mem_handleExecRequest (command : Command) (execution : Execution) :
    (0 : UInt8) ∉ handleExecRequest command execution := by
  unfold handleExecRequest
  split
  · exact zero_not_mem_utf8 (by decide +kernel)
  · cases execution with
    | noPipe error | noProcess error =>
        intro hmem
        rcases List.mem_append.mp hmem with hmem | hmem
        · exact zero_not_mem_utf8 (by decide) hmem
        · exact zero_not_mem_cString error hmem
    | ran pieces timedOut =>
        intro hmem
        rcases List.mem_append.mp hmem with hmem | hmem
        · obtain ⟨piece, -, hmem⟩ := List.mem_flatMap.mp hmem
          exact zero_not_mem_cString piece hmem
        · cases timedOut with
          | true => exact zero_not_mem_utf8 (by decide) hmem
          | false => simp at hmem

theorem response_of_newline {message : List UInt8} (hlast : message.getLast? = some 10) :
    response message = message := by
  simp [response, hlast]

/-! ## The invariant -/

/-- The request is one that a call wrote for this command. -/
def IsFor (s : State) (request : ℕ) (command : Command) : Prop :=
  ∃ id, s.requests[request]? = some id ∧ s.commands[id]? = some command

/-- The bytes of an answer. -/
def bytesOf (k : ℕ) (bytes : List (UInt8 × Option ℕ)) : List (UInt8 × Option ℕ) :=
  bytes.filter fun byte => byte.2 = some k

/-- A request on its way to the peer. -/
structure Line where
  request : ℕ
  text : List UInt8

def Line.bytes (line : Line) : List (UInt8 × ℕ) := tagged line.request (written line.text)

structure LinkOk (parse : List UInt8 → Option Json) (s : State) (link : Link) : Prop where
  lines : ∃ queue : List Line, link.toPeer = queue.flatMap Line.bytes ∧
    ∀ line ∈ queue, isDumped line.text = true ∧
      ∃ command, commandIn parse line.text = some command ∧ IsFor s line.request command
  known : ∀ byte ∈ link.unread, ∀ k, byte.2 = some k → k < s.answers.length
  whole : ∀ k a, s.answers[k]? = some a → awaits s a.request = true →
    bytesOf k link.unread = [] ∨
      bytesOf k link.unread = tagged (some k) (response a.message)

def ReturnedOk (s : State) (id : ℕ) (text : List UInt8) : Prop :=
  ∃ command, s.commands[id]? = some command ∧
    ∃ a ∈ s.answers, s.requests[a.request]? = some id ∧ a.command = command ∧
      a.message = text

structure Inv (parse : List UInt8 → Option Json) (s : State) : Prop where
  links : ∀ l, LinkOk parse s (s.links l)
  threads : ∀ t ∈ s.threads, IsFor s t.request t.command
  answers : ∀ a ∈ s.answers, IsFor s a.request a.command
  waiting : ∀ id attempt fd request, s.calls id = some ⟨attempt, .reads fd request⟩ →
    s.requests[request]? = some id
  returned : ∀ id text, (id, text) ∈ s.returned → ReturnedOk s id text

/-! ## What every step keeps -/

/-- Records grow, and no call begins to wait for an old request. -/
structure Extends (s s' : State) : Prop where
  commands : s.commands <+: s'.commands
  requests : s.requests <+: s'.requests
  answers : s.answers <+: s'.answers
  awaits : ∀ request < s.requests.length, awaits s' request = true → awaits s request = true

section

variable {parse : List UInt8 → Option Json} {s s' : State} {link : Link}

theorem getElem?_of_start {α : Type*} {xs ys : List α} {i : ℕ} {x : α} (hstart : xs <+: ys)
    (hx : xs[i]? = some x) : ys[i]? = some x := by
  obtain ⟨more, rfl⟩ := hstart
  rw [List.getElem?_append_left (List.getElem?_eq_some_iff.mp hx).1, hx]

theorem awaits_eq_true_iff {request : ℕ} :
    awaits s request = true ↔ ∃ id attempt fd,
      s.requests[request]? = some id ∧ s.calls id = some ⟨attempt, .reads fd request⟩ := by
  unfold awaits
  constructor
  · intro hawaits
    split at hawaits
    · rename_i id hid
      split at hawaits
      · rename_i attempt fd r hcall
        obtain rfl := of_decide_eq_true hawaits
        exact ⟨id, attempt, fd, hid, hcall⟩
      · contradiction
    · contradiction
  · rintro ⟨id, attempt, fd, hid, hcall⟩
    simp [hid, hcall]

theorem IsFor.lt {request : ℕ} {command : Command} (hfor : IsFor s request command) :
    request < s.requests.length := by
  obtain ⟨id, hid, -⟩ := hfor
  exact (List.getElem?_eq_some_iff.mp hid).1

theorem IsFor.extends {request : ℕ} {command : Command} (hfor : IsFor s request command)
    (hext : Extends s s') : IsFor s' request command := by
  obtain ⟨id, hid, hcommand⟩ := hfor
  exact ⟨id, getElem?_of_start hext.requests hid, getElem?_of_start hext.commands hcommand⟩

theorem bytesOf_append (k : ℕ) (first second : List (UInt8 × Option ℕ)) :
    bytesOf k (first ++ second) = bytesOf k first ++ bytesOf k second :=
  List.filter_append _ _

theorem bytesOf_eq_nil {k : ℕ} {bytes : List (UInt8 × Option ℕ)}
    (hall : ∀ byte ∈ bytes, byte.2 ≠ some k) : bytesOf k bytes = [] := by
  simpa [bytesOf, List.filter_eq_nil_iff] using hall

theorem bytesOf_eq_self {k : ℕ} {bytes : List (UInt8 × Option ℕ)}
    (hall : ∀ byte ∈ bytes, byte.2 = some k) : bytesOf k bytes = bytes := by
  simpa [bytesOf, List.filter_eq_self] using hall

theorem LinkOk.extends (hlink : LinkOk parse s link)
    (hanswers : ∀ a ∈ s.answers, IsFor s a.request a.command) (hext : Extends s s') :
    LinkOk parse s' link := by
  obtain ⟨⟨queue, hqueue, hlines⟩, hknown, hwhole⟩ := hlink
  refine ⟨⟨queue, hqueue, fun line hline => ?_⟩, fun byte hbyte k hk => ?_, ?_⟩
  · obtain ⟨hdumped, command, hcommand, hfor⟩ := hlines line hline
    exact ⟨hdumped, command, hcommand, hfor.extends hext⟩
  · exact (hknown byte hbyte k hk).trans_le hext.answers.length_le
  · intro k a ha hawaits
    by_cases hk : k < s.answers.length
    · have hold : s.answers[k]? = some a := by
        rw [List.getElem?_eq_getElem hk, ← ha]
        exact (getElem?_of_start hext.answers (List.getElem?_eq_getElem hk)).symm
      have hfor := hanswers a (List.mem_of_getElem? hold)
      exact hwhole k a hold (hext.awaits a.request hfor.lt hawaits)
    · refine Or.inl (bytesOf_eq_nil fun byte hbyte hkey => ?_)
      exact hk (hknown byte hbyte k hkey)

theorem ReturnedOk.extends {id : ℕ} {text : List UInt8} (hreturned : ReturnedOk s id text)
    (hext : Extends s s') : ReturnedOk s' id text := by
  obtain ⟨command, hcommand, a, ha, hrequest, hsame, htext⟩ := hreturned
  exact ⟨command, getElem?_of_start hext.commands hcommand, a, hext.answers.subset ha,
    getElem?_of_start hext.requests hrequest, hsame, htext⟩

theorem Inv.extends (hinv : Inv parse s) (hext : Extends s s')
    (hlinks : ∀ l, s'.links l = s.links l ∨ LinkOk parse s' (s'.links l))
    (hthreads : ∀ t ∈ s'.threads, t ∈ s.threads ∨ IsFor s' t.request t.command)
    (hanswers : ∀ a ∈ s'.answers, a ∈ s.answers ∨ IsFor s' a.request a.command)
    (hwaiting : ∀ id attempt fd request, s'.calls id = some ⟨attempt, .reads fd request⟩ →
      s.calls id = some ⟨attempt, .reads fd request⟩ ∨ s'.requests[request]? = some id)
    (hreturned : ∀ id text, (id, text) ∈ s'.returned →
      (id, text) ∈ s.returned ∨ ReturnedOk s' id text) : Inv parse s' := by
  constructor
  · intro l
    rcases hlinks l with hsame | hnew
    · rw [hsame]
      exact (hinv.links l).extends hinv.answers hext
    · exact hnew
  · intro t ht
    rcases hthreads t ht with hold | hnew
    · exact (hinv.threads t hold).extends hext
    · exact hnew
  · intro a ha
    rcases hanswers a ha with hold | hnew
    · exact (hinv.answers a hold).extends hext
    · exact hnew
  · intro id attempt fd request hcall
    rcases hwaiting id attempt fd request hcall with hold | hnew
    · exact getElem?_of_start hext.requests (hinv.waiting id attempt fd request hold)
    · exact hnew
  · intro id text hmem
    rcases hreturned id text hmem with hold | hnew
    · exact (hinv.returned id text hold).extends hext
    · exact hnew

/-! ## The two directions of a connection -/

theorem linkOk_empty : LinkOk parse s ⟨[], []⟩ := by
  refine ⟨⟨[], rfl, fun line hline => ?_⟩, fun byte hbyte => ?_, fun k a _ _ => ?_⟩
  · exact absurd hline List.not_mem_nil
  · exact absurd hbyte List.not_mem_nil
  · exact Or.inl rfl

theorem LinkOk.sends (hlink : LinkOk parse s link) (line : Line) {command : Command}
    (hdumped : isDumped line.text = true) (hcommand : commandIn parse line.text = some command)
    (hfor : IsFor s line.request command) :
    LinkOk parse s ⟨link.toPeer ++ line.bytes, link.unread⟩ := by
  obtain ⟨⟨queue, hqueue, hlines⟩, hknown, hwhole⟩ := hlink
  refine ⟨⟨queue ++ [line], ?_, fun other hother => ?_⟩, hknown, hwhole⟩
  · simp [hqueue]
  · rcases List.mem_append.mp hother with hother | hother
    · exact hlines other hother
    · obtain rfl := List.mem_singleton.mp hother
      exact ⟨hdumped, command, hcommand, hfor⟩

theorem LinkOk.takeLine (hlink : LinkOk parse s link) {line rest : List (UInt8 × ℕ)}
    {newline : UInt8 × ℕ}
    (htake : takeLine isNewline link.toPeer = some (line, newline, rest)) :
    LinkOk parse s ⟨rest, link.unread⟩ ∧
      ∃ command, commandIn parse (line.map Prod.fst) = some command ∧
        IsFor s newline.2 command := by
  obtain ⟨⟨queue, hqueue, hlines⟩, hknown, hwhole⟩ := hlink
  cases queue with
  | nil => simp [hqueue, LineFraming.takeLine] at htake
  | cons first queue =>
      obtain ⟨hdumped, command, hcommand, hfor⟩ := hlines first List.mem_cons_self
      rw [hqueue, List.flatMap_cons, Line.bytes, tagged_written, List.append_assoc,
        List.singleton_append, takeLine_line_append
          (not_newline_of_isDumped hdumped) (by simp [isNewline])] at htake
      obtain ⟨rfl, rfl, rfl⟩ : tagged first.request first.text = line ∧
          ((10 : UInt8), first.request) = newline ∧ queue.flatMap Line.bytes = rest := by
        simpa using htake
      refine ⟨⟨⟨queue, rfl, fun other hother => ?_⟩, hknown, hwhole⟩, command, ?_, hfor⟩
      · exact hlines other (List.mem_cons_of_mem _ hother)
      · rwa [map_fst_tagged]

theorem LinkOk.receives (hlink : LinkOk parse s link) (text : List UInt8) :
    LinkOk parse s ⟨link.toPeer, link.unread ++ tagged none text⟩ := by
  obtain ⟨hlines, hknown, hwhole⟩ := hlink
  refine ⟨hlines, fun byte hbyte k hk => ?_, fun k a ha hawaits => ?_⟩
  · rcases List.mem_append.mp hbyte with hbyte | hbyte
    · exact hknown byte hbyte k hk
    · rw [snd_of_mem_tagged hbyte] at hk
      contradiction
  · have hnone : bytesOf k (tagged none text) = [] := by
      refine bytesOf_eq_nil fun byte hbyte => ?_
      rw [snd_of_mem_tagged hbyte]
      simp
    rw [bytesOf_append, hnone, List.append_nil]
    exact hwhole k a ha hawaits

theorem LinkOk.answered (hlink : LinkOk parse s link) {k : ℕ} {a : Answer}
    (ha : s.answers[k]? = some a) (hnew : ∀ byte ∈ link.unread, byte.2 ≠ some k) :
    LinkOk parse s ⟨link.toPeer, link.unread ++ tagged (some k) (response a.message)⟩ := by
  obtain ⟨hlines, hknown, hwhole⟩ := hlink
  refine ⟨hlines, fun byte hbyte k' hk' => ?_, fun k' a' ha' hawaits => ?_⟩
  · rcases List.mem_append.mp hbyte with hbyte | hbyte
    · exact hknown byte hbyte k' hk'
    · rw [snd_of_mem_tagged hbyte] at hk'
      obtain rfl := Option.some.inj hk'
      exact (List.getElem?_eq_some_iff.mp ha).1
  · rw [bytesOf_append]
    by_cases hsame : k' = k
    · subst hsame
      obtain rfl := Option.some.inj (ha.symm.trans ha')
      right
      rw [bytesOf_eq_nil hnew, List.nil_append]
      exact bytesOf_eq_self fun byte hbyte => snd_of_mem_tagged hbyte
    · have hnone : bytesOf k' (tagged (some k) (response a.message)) = [] := by
        refine bytesOf_eq_nil fun byte hbyte hk' => ?_
        rw [snd_of_mem_tagged hbyte] at hk'
        exact hsame (Option.some.inj hk').symm
      rw [hnone, List.append_nil]
      exact hwhole k' a' ha' hawaits

theorem LinkOk.drained (hlink : LinkOk parse s link) : LinkOk parse s ⟨link.toPeer, []⟩ :=
  ⟨hlink.lines, fun _ hbyte => absurd hbyte List.not_mem_nil, fun _ _ _ _ => Or.inl rfl⟩

theorem LinkOk.mainReads (hlink : LinkOk parse s link) {n : ℕ}
    (hfree : ∀ byte ∈ link.unread.take n, byte.2.any (isAwaited s) = false) :
    LinkOk parse s ⟨link.toPeer, link.unread.drop n⟩ := by
  obtain ⟨hlines, hknown, hwhole⟩ := hlink
  refine ⟨hlines, fun byte hbyte => hknown byte (List.mem_of_mem_drop hbyte),
    fun k a ha hawaits => ?_⟩
  have hnone : bytesOf k (link.unread.take n) = [] := by
    refine bytesOf_eq_nil fun byte hbyte hk => ?_
    have hnot := hfree byte hbyte
    have hyes : isAwaited s k = true := by simp [isAwaited, ha, hawaits]
    rw [hk, Option.any_some, hyes] at hnot
    contradiction
  have hsplit := bytesOf_append k (link.unread.take n) (link.unread.drop n)
  rw [List.take_append_drop, hnone, List.nil_append] at hsplit
  rw [← hsplit]
  exact hwhole k a ha hawaits

/-- Where one answer to an awaited request is all there is, it is there whole. -/
theorem LinkOk.text_eq (hlink : LinkOk parse s link) {request : ℕ}
    (hawaits : awaits s request = true) (hone : oneAnswer s request link.unread = true) :
    ∃ a ∈ s.answers, a.request = request ∧ link.unread.map Prod.fst = a.message := by
  unfold oneAnswer at hone
  split at hone
  · rename_i b k hhead
    split at hone
    · rename_i a ha
      simp only [Bool.and_eq_true, decide_eq_true_eq, List.all_eq_true] at hone
      obtain ⟨⟨rfl, hall⟩, hlast⟩ := hone
      refine ⟨a, List.mem_of_getElem? ha, rfl, ?_⟩
      have hself := bytesOf_eq_self hall
      rcases hlink.whole k a ha hawaits with hnone | hwhole
      · rw [hself] at hnone
        simp [hnone] at hhead
      · rw [hself, response_of_newline hlast] at hwhole
        rw [hwhole, map_fst_tagged]
    · contradiction
  · contradiction

end

/-! ## Steps -/

section

variable {parse : List UInt8 → Option Json} {s s' : State} {label : Label}

def IsReading (call : Option Call) : Prop :=
  ∃ attempt fd request, call = some ⟨attempt, .reads fd request⟩

@[simp] theorem not_isReading_none : ¬ IsReading none := by
  rintro ⟨attempt, fd, request, hcall⟩
  contradiction

@[simp] theorem not_isReading_starts (attempt : ℕ) :
    ¬ IsReading (some ⟨attempt, .starts⟩) := by
  rintro ⟨attempt', fd, request, hcall⟩
  simp at hcall

@[simp] theorem not_isReading_connected (attempt : ℕ) (fd : Fd) :
    ¬ IsReading (some ⟨attempt, .connected fd⟩) := by
  rintro ⟨attempt', fd', request, hcall⟩
  simp at hcall

theorem calls_of_setCall {id : ℕ} {call : Option Call} (hcall : ¬ IsReading call) {id' : ℕ}
    {attempt : ℕ} {fd : Fd} {request : ℕ}
    (hreads : Function.update s.calls id call id' = some ⟨attempt, .reads fd request⟩) :
    s.calls id' = some ⟨attempt, .reads fd request⟩ := by
  by_cases hid : id' = id
  · subst hid
    rw [Function.update_self] at hreads
    exact absurd ⟨attempt, fd, request, hreads⟩ hcall
  · rwa [Function.update_of_ne hid] at hreads

theorem extends_of_calls (hcommands : s.commands <+: s'.commands)
    (hrequests : s'.requests = s.requests) (hanswers : s.answers <+: s'.answers)
    (hcalls : ∀ id attempt fd request, s'.calls id = some ⟨attempt, .reads fd request⟩ →
      s.calls id = some ⟨attempt, .reads fd request⟩) : Extends s s' := by
  refine ⟨hcommands, by rw [hrequests], hanswers, fun request _ hawaits => ?_⟩
  obtain ⟨id, attempt, fd, hid, hcall⟩ := awaits_eq_true_iff.mp hawaits
  rw [hrequests] at hid
  exact awaits_eq_true_iff.mpr ⟨id, attempt, fd, hid, hcalls id attempt fd request hcall⟩

theorem Inv.moves (hinv : Inv parse s) {id : ℕ} {call : Option Call} (hcall : ¬ IsReading call)
    (hcalls : s'.calls = Function.update s.calls id call) (hlinks : s'.links = s.links)
    (hthreads : s'.threads = s.threads) (hcommands : s.commands <+: s'.commands)
    (hrequests : s'.requests = s.requests) (hanswers : s'.answers = s.answers)
    (hreturned : s'.returned = s.returned) : Inv parse s' := by
  have hreads : ∀ id' attempt fd request, s'.calls id' = some ⟨attempt, .reads fd request⟩ →
      s.calls id' = some ⟨attempt, .reads fd request⟩ := by
    intro id' attempt fd request hreads
    rw [hcalls] at hreads
    exact calls_of_setCall hcall hreads
  have hext := extends_of_calls hcommands hrequests (by rw [hanswers]) hreads
  refine hinv.extends hext (fun l => Or.inl (by rw [hlinks])) (fun t ht => ?_)
    (fun a ha => ?_) (fun id' attempt fd request h => Or.inl (hreads id' attempt fd request h))
    (fun id' text hmem => ?_)
  · exact Or.inl (by rwa [hthreads] at ht)
  · exact Or.inl (by rwa [hanswers] at ha)
  · exact Or.inl (by rwa [hreturned] at hmem)

theorem Inv.setLink (hinv : Inv parse s) {l : ℕ} {link : Link}
    (hlink : LinkOk parse s link) : Inv parse (setLink l link s) := by
  have hext : Extends s (ExecStream.setLink l link s) :=
    extends_of_calls List.prefix_rfl rfl List.prefix_rfl fun _ _ _ _ h => h
  refine hinv.extends hext (fun l' => ?_) (fun t ht => Or.inl ht) (fun a ha => Or.inl ha)
    (fun id attempt fd request h => Or.inl h) (fun id text hmem => Or.inl hmem)
  have hlinks : (ExecStream.setLink l link s).links = Function.update s.links l link := rfl
  rw [hlinks]
  by_cases hl : l' = l
  · right
    subst hl
    rw [Function.update_self]
    exact hlink.extends hinv.answers hext
  · left
    rw [Function.update_of_ne hl]

theorem Inv.congr (hinv : Inv parse s) (hlinks : s'.links = s.links)
    (hcalls : s'.calls = s.calls) (hthreads : ∀ t ∈ s'.threads, t ∈ s.threads)
    (hcommands : s'.commands = s.commands) (hrequests : s'.requests = s.requests)
    (hanswers : s'.answers = s.answers) (hreturned : s'.returned = s.returned) :
    Inv parse s' := by
  have hext : Extends s s' :=
    extends_of_calls (by rw [hcommands]) hrequests (by rw [hanswers]) (by simp [hcalls])
  refine hinv.extends hext (fun l => Or.inl (by rw [hlinks])) (fun t ht => Or.inl (hthreads t ht))
    (fun a ha => Or.inl (by rwa [hanswers] at ha)) (fun id attempt fd request h => Or.inl ?_)
    (fun id text hmem => Or.inl (by rwa [hreturned] at hmem))
  rwa [hcalls] at h

theorem dropPeer_spec (s : State) : ∃ sockets socket_fd,
    dropPeer s = { s with sockets, socket_fd } := by
  unfold dropPeer
  split
  · exact ⟨_, none, rfl⟩
  · exact ⟨s.sockets, s.socket_fd, rfl⟩

theorem Inv.failed (hinv : Inv parse s) (id attempt : ℕ) : Inv parse (failed id attempt s) := by
  have hcall : ¬ IsReading (if attempt = 0 then some (⟨1, .starts⟩ : Call) else none) := by
    split <;> simp
  exact hinv.moves hcall rfl rfl rfl List.prefix_rfl rfl rfl rfl

theorem Inv.dropPeer (hinv : Inv parse s) : Inv parse (dropPeer s) := by
  obtain ⟨sockets, socket_fd, heq⟩ := dropPeer_spec s
  rw [heq]
  exact hinv.congr rfl rfl (fun _ ht => ht) rfl rfl rfl rfl

theorem Inv.openLink (hinv : Inv parse s) (fd client_sock : Fd) :
    Inv parse (openLink fd client_sock s) :=
  Inv.congr (hinv.setLink (l := s.opened) linkOk_empty) rfl rfl (fun _ ht => ht) rfl rfl rfl rfl

theorem Inv.requests (hinv : Inv parse s) {id attempt : ℕ} {fd : Fd} :
    Inv parse
      { setCall id (some ⟨attempt, .reads fd s.requests.length⟩) s with
        requests := s.requests ++ [id] } := by
  have hext : Extends s
      { setCall id (some ⟨attempt, .reads fd s.requests.length⟩) s with
        requests := s.requests ++ [id] } := by
    refine ⟨List.prefix_rfl, List.prefix_append _ _, List.prefix_rfl, ?_⟩
    intro request hlt hawaits
    obtain ⟨id', attempt', fd', hid, hcall⟩ := awaits_eq_true_iff.mp hawaits
    refine awaits_eq_true_iff.mpr ⟨id', attempt', fd', ?_, ?_⟩
    · rwa [List.getElem?_append_left hlt] at hid
    · simp only [setCall] at hcall
      by_cases hsame : id' = id
      · subst hsame
        simp only [Function.update_self, Option.some.injEq, Call.mk.injEq,
          Phase.reads.injEq] at hcall
        omega
      · rwa [Function.update_of_ne hsame] at hcall
  refine hinv.extends hext (fun l => Or.inl rfl) (fun t ht => Or.inl ht) (fun a ha => Or.inl ha)
    (fun id' attempt' fd' request hcall => ?_) (fun id' text hmem => Or.inl hmem)
  simp only [setCall] at hcall
  by_cases hsame : id' = id
  · right
    subst hsame
    simp only [Function.update_self, Option.some.injEq, Call.mk.injEq,
      Phase.reads.injEq] at hcall
    obtain ⟨-, -, rfl⟩ := hcall
    simp
  · left
    rwa [Function.update_of_ne hsame] at hcall

theorem Inv.sends (hinv : Inv parse s) {id attempt l : ℕ} {fd : Fd} {line : List UInt8}
    {command : Command} (hdumped : isDumped line = true)
    (hread : commandIn parse line = some command) (hcommand : s.commands[id]? = some command) :
    Inv parse
      { setCall id (some ⟨attempt, .reads fd s.requests.length⟩)
          (ExecStream.setLink l
            ⟨(s.links l).toPeer ++ tagged s.requests.length (written line),
              (s.links l).unread⟩ s) with
        requests := s.requests ++ [id] } := by
  have hrequests : Inv parse
      { setCall id (some ⟨attempt, .reads fd s.requests.length⟩) s with
        requests := s.requests ++ [id] } := hinv.requests
  have hlink := (hrequests.links l).sends ⟨s.requests.length, line⟩ hdumped hread
    ⟨id, by simp, hcommand⟩
  exact hrequests.setLink hlink

theorem Inv.runs (hinv : Inv parse s) {a : Answer} {threads : List Thread}
    (hfor : IsFor s a.request a.command)
    (hthreads : ∀ t ∈ threads, t ∈ s.threads ∨ IsFor s t.request t.command) :
    Inv parse { s with answers := s.answers ++ [a], threads } := by
  have hext : Extends s { s with answers := s.answers ++ [a], threads } :=
    extends_of_calls List.prefix_rfl rfl (List.prefix_append _ _) fun _ _ _ _ h => h
  refine hinv.extends hext (fun l => Or.inl rfl) (fun t ht => ?_) (fun a' ha => ?_)
    (fun id attempt fd request h => Or.inl h) (fun id text hmem => Or.inl hmem)
  · exact (hthreads t ht).imp_right fun h => h.extends hext
  · rcases List.mem_append.mp ha with ha | ha
    · exact Or.inl ha
    · obtain rfl := List.mem_singleton.mp ha
      exact Or.inr (hfor.extends hext)

theorem Inv.answered (hinv : Inv parse s) {a : Answer} {l : ℕ} {toPeer : List (UInt8 × ℕ)}
    (hlink : LinkOk parse s ⟨toPeer, (s.links l).unread⟩)
    (hfor : IsFor s a.request a.command) {threads : List Thread}
    (hthreads : ∀ t ∈ threads, t ∈ s.threads ∨ IsFor s t.request t.command) :
    Inv parse { answered a l toPeer s with threads } := by
  have hruns := hinv.runs hfor hthreads
  have hext : Extends s { s with answers := s.answers ++ [a], threads } :=
    extends_of_calls List.prefix_rfl rfl (List.prefix_append _ _) fun _ _ _ _ h => h
  have hnew : ∀ byte ∈ (s.links l).unread, byte.2 ≠ some s.answers.length :=
    fun byte hbyte hk => absurd (hlink.known byte hbyte _ hk) (lt_irrefl _)
  exact hruns.setLink ((hlink.extends hinv.answers hext).answered (by simp) hnew)

theorem Inv.reads (hinv : Inv parse s) {id attempt l : ℕ} {fd : Fd} {request : ℕ}
    (hcall : s.calls id = some ⟨attempt, .reads fd request⟩)
    (hone : oneAnswer s request (s.links l).unread = true) :
    Inv parse
      { setCall id none (ExecStream.setLink l ⟨(s.links l).toPeer, []⟩ s) with
        returned := s.returned ++ [(id, cString ((s.links l).unread.map Prod.fst))] } := by
  have hrequest := hinv.waiting id attempt fd request hcall
  have hawaits := awaits_eq_true_iff.mpr ⟨id, attempt, fd, hrequest, hcall⟩
  obtain ⟨a, ha, rfl, htext⟩ := (hinv.links l).text_eq hawaits hone
  have hstring : cString ((s.links l).unread.map Prod.fst) = a.message := by
    rw [htext]
    exact cString_of_no_nul (zero_not_mem_handleExecRequest a.command a.execution)
  obtain ⟨id', hid, hcommand⟩ := hinv.answers a ha
  obtain rfl := Option.some.inj (hid.symm.trans hrequest)
  have hmoved : Inv parse (setCall id' none (ExecStream.setLink l _ s)) :=
    (hinv.setLink (hinv.links l).drained).moves not_isReading_none rfl rfl rfl
      List.prefix_rfl rfl rfl rfl
  refine hmoved.extends ⟨List.prefix_rfl, List.prefix_rfl, List.prefix_rfl, fun _ _ h => h⟩
    (fun l => Or.inl rfl) (fun t ht => Or.inl ht) (fun a ha => Or.inl ha)
    (fun id attempt fd request h => Or.inl h) (fun id text hmem => ?_)
  rcases List.mem_append.mp hmem with hmem | hmem
  · exact Or.inl hmem
  · obtain ⟨rfl, rfl⟩ := Prod.mk.inj (List.mem_singleton.mp hmem)
    exact Or.inr ⟨a.command, hcommand, a, ha, hrequest, rfl, hstring.symm⟩

theorem Inv.step (hinv : Inv parse s) (hok : Undisturbed s label)
    (hstep : step parse s label = some s') : Inv parse s' := by
  cases label with
  | calls command =>
      obtain rfl := Option.some.inj hstep
      exact hinv.moves (not_isReading_starts 0) rfl rfl rfl (List.prefix_append _ _) rfl rfl rfl
  | finds id =>
      simp only [ExecStream.step] at hstep
      split at hstep
      · obtain rfl := Option.some.inj hstep
        exact hinv.moves (not_isReading_connected _ _) rfl rfl rfl List.prefix_rfl rfl rfl rfl
      · contradiction
  | connects id fd client_sock =>
      simp only [ExecStream.step] at hstep
      split at hstep
      · obtain rfl := Option.some.inj hstep
        exact (hinv.openLink fd client_sock).moves (not_isReading_connected _ _) rfl rfl rfl
          List.prefix_rfl rfl rfl rfl
      · contradiction
  | addressUnknown id =>
      simp only [ExecStream.step] at hstep
      split at hstep
      · obtain rfl := Option.some.inj hstep
        exact hinv.moves not_isReading_none rfl rfl rfl List.prefix_rfl rfl rfl rfl
      · contradiction
  | connectFails id =>
      simp only [ExecStream.step] at hstep
      split at hstep
      · obtain rfl := Option.some.inj hstep
        exact hinv.failed id _
      · contradiction
  | sends id line n =>
      simp only [ExecStream.step] at hstep
      split at hstep
      · rename_i attempt fd command l hcall hcommand hsocket
        simp only [Option.ite_none_right_eq_some, Option.some.injEq] at hstep
        obtain ⟨⟨hdumped, hread⟩, rfl⟩ := hstep
        obtain rfl : n = (written line).length := hok
        rw [List.take_length]
        exact hinv.sends hdumped hread hcommand
      · contradiction
  | sendFails id =>
      simp only [ExecStream.step] at hstep
      split at hstep
      · obtain rfl := Option.some.inj hstep
        exact hinv.dropPeer.failed id _
      · contradiction
  | reads id n =>
      simp only [ExecStream.step] at hstep
      split at hstep
      · rename_i attempt fd request hcall
        split at hstep
        · rename_i l hsocket
          simp only [Option.ite_none_right_eq_some, Option.some.injEq] at hstep
          obtain ⟨-, rfl⟩ := hstep
          simp only [Undisturbed, takesOneAnswer, hcall, hsocket, Bool.and_eq_true,
            decide_eq_true_eq] at hok
          obtain ⟨hone, rfl⟩ := hok
          rw [List.take_length, List.drop_length]
          exact hinv.reads hcall hone
        · contradiction
      · contradiction
  | readFails id =>
      simp only [ExecStream.step] at hstep
      split at hstep
      · obtain rfl := Option.some.inj hstep
        exact hinv.dropPeer.failed id _
      · contradiction
  | readTimesOut id =>
      simp only [ExecStream.step] at hstep
      split at hstep
      · obtain rfl := Option.some.inj hstep
        exact hinv.moves not_isReading_none rfl rfl rfl List.prefix_rfl rfl rfl rfl
      · contradiction
  | registers fd client_sock =>
      simp only [ExecStream.step] at hstep
      split at hstep
      · obtain rfl := Option.some.inj hstep
        exact hinv.openLink fd client_sock
      · contradiction
  | mainReads fd n =>
      simp only [ExecStream.step] at hstep
      split at hstep
      · rename_i l hsocket
        simp only [Option.ite_none_right_eq_some, Option.some.injEq] at hstep
        obtain ⟨-, rfl⟩ := hstep
        simp only [Undisturbed, takesNoAnswer, hsocket, List.all_eq_true,
          Bool.not_eq_true'] at hok
        exact hinv.setLink ((hinv.links l).mainReads hok)
      · contradiction
  | mainCloses fd =>
      obtain rfl := Option.some.inj hstep
      exact hinv.congr rfl rfl (fun _ ht => ht) rfl rfl rfl rfl
  | peerHandles client_sock execution =>
      simp only [ExecStream.step] at hstep
      split at hstep
      · rename_i l hclient
        split at hstep
        · rename_i line newline rest htake
          obtain ⟨hlink, command, hcommand, hfor⟩ := (hinv.links l).takeLine htake
          rw [hcommand] at hstep
          obtain rfl := Option.some.inj hstep
          refine hinv.answered hlink hfor fun t ht => ?_
          rcases List.mem_append.mp ht with ht | ht
          · exact Or.inl ht
          · obtain rfl := List.mem_singleton.mp ht
            exact Or.inr hfor
        · contradiction
      · contradiction
  | threadFinishes i execution =>
      simp only [ExecStream.step] at hstep
      split at hstep
      · rename_i thread hthread
        have hfor := hinv.threads thread (List.mem_of_getElem? hthread)
        have hrest : ∀ t ∈ s.threads.eraseIdx i, t ∈ s.threads ∨ IsFor s t.request t.command :=
          fun t ht => Or.inl (List.mem_of_mem_eraseIdx ht)
        split at hstep
        · rename_i l hclient
          obtain rfl := Option.some.inj hstep
          have hanswered := hinv.answered (a := ⟨thread.request, thread.command, execution⟩)
            (hinv.links l) hfor hrest
          exact hanswered.congr rfl rfl (fun _ ht => ht) rfl rfl rfl rfl
        · obtain rfl := Option.some.inj hstep
          exact hinv.runs hfor hrest
      · contradiction
  | peerWrites client_sock text =>
      simp only [ExecStream.step] at hstep
      split at hstep
      · rename_i l hclient
        obtain rfl := Option.some.inj hstep
        exact hinv.setLink ((hinv.links l).receives text)
      · contradiction
  | peerCloses client_sock =>
      obtain rfl := Option.some.inj hstep
      exact hinv.congr rfl rfl (fun _ ht => ht) rfl rfl rfl rfl

theorem inv_initial : Inv parse initial := by
  constructor
  · exact fun l => linkOk_empty
  · exact fun t ht => absurd ht List.not_mem_nil
  · exact fun a ha => absurd ha List.not_mem_nil
  · intro id attempt fd request hcall
    simp [initial] at hcall
  · exact fun id text hmem => absurd hmem List.not_mem_nil

/-- In every run in which a call reads only while one answer to its request is all
there is, and all of it at once, a text a call returns is the output of its command. -/
theorem outputs_of_reachable
    (hreach : ReachableWhere (ExecStream.step parse) Undisturbed initial s) : Matched s :=
  (hreach.invariant (I := Inv parse) (fun hinv hok hstep => hinv.step hok hstep)
    inv_initial).returned

end

/-! ## Two calls -/

def pull : Command := ⟨"/srv", "git pull"⟩

def pullLine : List UInt8 :=
  utf8 ("\x7b\"command\":\"execRequest\",\"directory\":\"/srv\"," ++
    "\"shellCmd\":\"git pull\"\x7d")

def status : Command := ⟨"/srv", "git status"⟩

def statusLine : List UInt8 :=
  utf8 ("\x7b\"command\":\"execRequest\",\"directory\":\"/srv\"," ++
    "\"shellCmd\":\"git status\"\x7d")

def parseTwo (line : List UInt8) : Option Json :=
  if line = pullLine then some (requestFor "/srv" "git pull")
  else if line = statusLine then some (requestFor "/srv" "git status")
  else none

/-- A command that prints `OK` and a newline. -/
def printsOk : Execution := .ran [[79, 75], [10]] false

/-- A call connects, and gets the first answer to its request. -/
def firstCall : List Label :=
  [.calls pull, .connects 0 3 7, .sends 0 pullLine (pullLine.length + 1),
    .peerHandles 7 printsOk, .reads 0 3]

/-- A command that prints `##` and a newline. -/
def printsBranch : Execution := .ran [[35, 35, 10]] false

/-- The thread answers too and closes the connection, and the main loop reads what it has
written before the next call. -/
def closedBetween : List Label :=
  firstCall ++
    [.threadFinishes 0 printsOk, .mainReads 3 3, .mainCloses 3, .calls status, .connects 1 3 8,
      .sends 1 statusLine (statusLine.length + 1), .peerHandles 8 printsBranch, .reads 1 3]

theorem closedBetween_matched :
    ∃ s, execute (step parseTwo) initial closedBetween = some s ∧
      s.returned = [(0, [79, 75, 10]), (1, [35, 35, 10])] ∧ Matched s := by
  have hok : AllSteps (step parseTwo) Undisturbed initial closedBetween := by decide
  exact ⟨_, rfl, rfl, outputs_of_reachable (ReachableWhere.of_execute hok rfl)⟩

/-- If nobody reads it, the second answer to the first call is what the next call returns,
whose command the peer never runs. -/
def nextCall : List Label :=
  [.threadFinishes 0 printsOk, .calls status, .finds 1,
    .sends 1 statusLine (statusLine.length + 1), .reads 1 3]

theorem nextCall_not_matched :
    ¬ ∀ s, Reachable (step parseTwo) initial s → Matched s := by
  intro hmatched
  have hrun : ∃ s, execute (step parseTwo) initial (firstCall ++ nextCall) = some s ∧
      s.returned = [(0, [79, 75, 10]), (1, [79, 75, 10])] ∧ s.requests = [0, 1] ∧
        s.answers.map Answer.request = [0, 0] :=
    ⟨_, rfl, rfl, rfl, rfl⟩
  obtain ⟨s, hrun, hreturned, hrequests, hanswers⟩ := hrun
  obtain ⟨-, -, a, ha, hrequest, -⟩ := hmatched s (Reachable.of_execute hrun) 1 [79, 75, 10]
    (by simp [hreturned])
  have hzero : a.request = 0 := by
    have hmem : a.request ∈ s.answers.map Answer.request := List.mem_map_of_mem ha
    simpa [hanswers] using hmem
  simp [hrequests, hzero] at hrequest

end ExecStream

end AutomateLinux
