import AutomateLinux.LeaderStream
import AutomateLinux.MainCommand
import AutomateLinux.TransitionSystem

/-!
# Replies and pushes on the leader connection

The invariant follows the bytes.  The commands the leader has not read are still
whole lines of its stream; the unread bytes of an awaited reply are all of it;
and the pushed commands are those dispatched together with those in the bytes
the worker has kept or not read.  A call that reads while only its own reply is
unread therefore gets all of it, and takes nothing from a line the main loop has
begun.
-/

namespace AutomateLinux

namespace LeaderStream

open TransitionSystem LineFraming

/-! ## Texts on the wire -/

section

variable {τ : Type*} {owner : τ} {text line : List UInt8}

@[simp] theorem map_fst_tagged (owner : τ) (text : List UInt8) :
    (tagged owner text).map Prod.fst = text := by
  simp [tagged, Function.comp_def]

theorem snd_of_mem_tagged {byte : UInt8 × τ} (hbyte : byte ∈ tagged owner text) :
    byte.2 = owner := by
  obtain ⟨b, -, rfl⟩ := List.mem_map.mp hbyte
  rfl

theorem not_newline_of_isDumped (hdumped : isDumped line = true) :
    ∀ byte ∈ tagged owner line, isNewline byte = false := by
  intro byte hbyte
  obtain ⟨b, hb, rfl⟩ := List.mem_map.mp hbyte
  simp only [isDumped, Bool.and_eq_true, List.all_eq_true, decide_eq_true_eq]
    at hdumped
  have hle := hdumped.2 b hb
  simp only [isNewline, decide_eq_false_iff_not]
  rintro rfl
  exact absurd hle (by decide)

theorem tagged_written (owner : τ) (line : List UInt8) :
    tagged owner (written line) = tagged owner line ++ [(10, owner)] := by
  simp [tagged, written]

theorem terminated_written (hdumped : isDumped line = true) :
    Terminated isNewline (tagged owner (written line)) := by
  rw [tagged_written]
  exact terminated_line (not_newline_of_isDumped hdumped) (by simp [isNewline])

theorem lines_written (hdumped : isDumped line = true) :
    lines isNewline (tagged owner (written line)) = [tagged owner line] := by
  rw [tagged_written]
  exact lines_line (not_newline_of_isDumped hdumped) (by simp [isNewline])

theorem terminated_response (message : List UInt8) :
    Terminated isNewline (tagged owner (response message)) := by
  cases hlast : (tagged owner (response message)).getLast? with
  | none =>
      rw [List.getLast?_eq_none_iff.mp hlast]
      exact terminated_nil
  | some byte =>
      refine terminated_of_getLast? hlast ?_
      unfold response at hlast
      split at hlast
      · rename_i hends
        simp only [Bool.or_eq_true, List.isEmpty_iff, decide_eq_true_eq] at hends
        rcases hends with rfl | hends
        · simp [tagged] at hlast
        · simp only [tagged, List.getLast?_map, hends, Option.map_some,
            Option.some.injEq] at hlast
          simp [← hlast, isNewline]
      · simp only [tagged, List.map_append, List.map_cons, List.map_nil,
          List.getLast?_append, List.getLast?_singleton, Option.some_or,
          Option.some.injEq] at hlast
        simp [← hlast, isNewline]

end

/-! ## Commands in lines -/

/-- The pushed commands in a stream's lines. -/
def pushesIn (parse : List UInt8 → Option Json)
    (stream : List (UInt8 × Origin)) : List (ℕ × Json) :=
  ((lines isNewline stream).filterMap (commandIn parse)).filterMap pushOf

section

variable {parse : List UInt8 → Option Json}

theorem pushesIn_of_terminated {first : List (UInt8 × Origin)}
    (hfirst : Terminated isNewline first) (second : List (UInt8 × Origin)) :
    pushesIn parse (first ++ second) =
      pushesIn parse first ++ pushesIn parse second := by
  simp [pushesIn, lines_append_of_terminated hfirst]

theorem pushesIn_eq_nil {stream : List (UInt8 × Origin)}
    (hall : ∀ byte ∈ stream, ∀ id, byte.2 ≠ .push id) :
    pushesIn parse stream = [] := by
  unfold pushesIn
  rw [List.filterMap_eq_nil_iff]
  intro command hcommand
  obtain ⟨line, hline, hin⟩ := List.mem_filterMap.mp hcommand
  unfold commandIn at hin
  split at hin
  · rename_i byte j hhead hparse
    obtain ⟨-, hsome⟩ := Option.ite_none_right_eq_some.mp hin
    obtain rfl := Option.some.inj hsome
    have hmem := mem_of_mem_lines hline (List.mem_of_mem_head? hhead)
    unfold pushOf
    split
    · rename_i id j' heq
      exact absurd (Prod.mk.inj heq).1 (hall byte hmem id)
    · rfl
  · contradiction

theorem pushesIn_written {line : List UInt8} {j : Json} {id : ℕ}
    (hparse : parse line = some j) (hdumped : isDumped line = true)
    (hobject : j.is_object = true) (hcommand : j.contains COMMAND_KEY = true) :
    pushesIn parse (tagged (.push id) (written line)) = [(id, j)] := by
  have hdump := hdumped
  simp only [isDumped, Bool.and_eq_true, List.all_eq_true, decide_eq_true_eq]
    at hdump
  have hreceived : received parse line = some j := by
    have hlast : line.getLast? ≠ some 13 := by
      intro hlast
      exact absurd (hdump.2 13 (List.mem_of_getLast? hlast)) (by decide)
    simp [received, dropCarriageReturn, hlast, hparse]
  have hin : commandIn parse (tagged (.push id) line) = some (.push id, j) := by
    cases line with
    | nil => simp at hdump
    | cons b rest =>
        have hmap := map_fst_tagged (Origin.push id) (b :: rest)
        have hhead : (tagged (Origin.push id) (b :: rest)).head? =
            some (b, .push id) := rfl
        simp [commandIn, hmap, hreceived, hhead, hobject, hcommand]
  simp [pushesIn, lines_written hdumped, hin, pushOf]

end

/-! ## The commands on their way to the leader -/

/-- What the leader has not read are whole lines of commands that are sent and
not answered, each once, and every answer is to the command sent. -/
structure Requests (s : LeaderStream) : Prop where
  queue : ∃ queue : List (ℕ × List UInt8),
    s.toLeader = queue.flatMap (fun request => tagged request.1 (written request.2)) ∧
      (queue.map Prod.fst).Nodup ∧
      ∀ request ∈ queue, isDumped request.2 = true ∧
        s.sent[request.1]? = some request.2 ∧ ∀ a ∈ s.answers, a.id ≠ request.1
  answered : ∀ a ∈ s.answers, s.sent[a.id]? = some a.line

section

variable {s : LeaderStream}

theorem Requests.answers_lt (hrequests : Requests s) :
    ∀ a ∈ s.answers, a.id < s.sent.length := by
  intro a ha
  obtain ⟨hlt, -⟩ := List.getElem?_eq_some_iff.mp (hrequests.answered a ha)
  exact hlt

theorem Requests.forward (hrequests : Requests s) {line : List UInt8}
    (hdumped : isDumped line = true) (waiting : List Call) :
    Requests
      { s with
        toLeader := s.toLeader ++ tagged s.sent.length (written line)
        waiting
        sent := s.sent ++ [line] } := by
  obtain ⟨queue, hqueue, hnodup, hmem⟩ := hrequests.queue
  have hold : ∀ {id : ℕ} {text : List UInt8}, s.sent[id]? = some text →
      (s.sent ++ [line])[id]? = some text := by
    intro id text hsent
    obtain ⟨hlt, -⟩ := List.getElem?_eq_some_iff.mp hsent
    rw [List.getElem?_append_left hlt]
    exact hsent
  constructor
  · refine ⟨queue ++ [(s.sent.length, line)], by simp [hqueue], ?_, ?_⟩
    · rw [List.map_append, List.nodup_append]
      refine ⟨hnodup, by simp, ?_⟩
      intro id hid id' hid' heq
      obtain ⟨request, hrequest, rfl⟩ := List.mem_map.mp hid
      obtain ⟨hlt, -⟩ := List.getElem?_eq_some_iff.mp (hmem request hrequest).2.1
      obtain rfl : id' = s.sent.length := by simpa using hid'
      omega
    · intro request hrequest
      rcases List.mem_append.mp hrequest with hrequest | hrequest
      · obtain ⟨hline, hsent, hanswers⟩ := hmem request hrequest
        exact ⟨hline, hold hsent, hanswers⟩
      · obtain rfl := List.mem_singleton.mp hrequest
        refine ⟨hdumped, by simp, fun a ha => ?_⟩
        exact (hrequests.answers_lt a ha).ne
  · exact fun a ha => hold (hrequests.answered a ha)

/-- The first line of the stream is a command that is not answered. -/
theorem Requests.takeLine (hrequests : Requests s)
    {line rest : List (UInt8 × ℕ)} {newline : UInt8 × ℕ}
    (htake : takeLine isNewline s.toLeader = some (line, newline, rest)) :
    (∀ a ∈ s.answers, a.id ≠ newline.2) ∧
      ∀ text unread, Requests
        { s with
          toLeader := rest
          answers := s.answers ++ [⟨newline.2, line.map Prod.fst, text⟩]
          unread } := by
  obtain ⟨queue, hqueue, hnodup, hmem⟩ := hrequests.queue
  cases queue with
  | nil => simp [hqueue, LineFraming.takeLine] at htake
  | cons request queue =>
      obtain ⟨hdumped, hsent, hunanswered⟩ := hmem request (by simp)
      rw [hqueue, List.flatMap_cons, tagged_written, List.append_assoc,
        List.singleton_append, takeLine_line_append
          (not_newline_of_isDumped hdumped) (by simp [isNewline])] at htake
      obtain ⟨rfl, rfl, rfl⟩ : tagged request.1 request.2 = line ∧
          ((10 : UInt8), request.1) = newline ∧
            queue.flatMap (fun r => tagged r.1 (written r.2)) = rest := by
        simpa using htake
      refine ⟨hunanswered, fun text unread => ⟨⟨queue, rfl, ?_, ?_⟩, ?_⟩⟩
      · exact (List.nodup_cons.mp hnodup).2
      · intro other hother
        obtain ⟨hdumped', hsent', hunanswered'⟩ :=
          hmem other (List.mem_cons_of_mem _ hother)
        refine ⟨hdumped', hsent', fun a ha => ?_⟩
        rcases List.mem_append.mp ha with ha | ha
        · exact hunanswered' a ha
        · obtain rfl := List.mem_singleton.mp ha
          intro heq
          have hid : request.1 = other.1 := heq
          refine (List.nodup_cons.mp hnodup).1 ?_
          rw [hid]
          exact List.mem_map_of_mem hother
      · intro a ha
        rcases List.mem_append.mp ha with ha | ha
        · exact hrequests.answered a ha
        · obtain rfl := List.mem_singleton.mp ha
          simpa using hsent

theorem Requests.congr {s' : LeaderStream} (hrequests : Requests s)
    (htoLeader : s'.toLeader = s.toLeader) (hsent : s'.sent = s.sent)
    (hanswers : s'.answers = s.answers) : Requests s' := by
  obtain ⟨hqueue, hanswered⟩ := hrequests
  exact ⟨by rwa [htoLeader, hsent, hanswers], by rwa [hsent, hanswers]⟩

end

/-! ## The replies on their way back -/

/-- The unread bytes of a reply. -/
def bytesOf (id : ℕ) (stream : List (UInt8 × Origin)) : List (UInt8 × Origin) :=
  stream.filter fun byte => byte.2 = .reply id

/-- Only answered commands have replies, and the whole reply to a command a call
waits for is unread. -/
structure Replies (s : LeaderStream) : Prop where
  asked : ∀ byte ∈ s.leader_buffer ++ s.unread, ∀ id, byte.2 = .reply id →
    ∃ a ∈ s.answers, a.id = id
  awaited : ∀ call ∈ s.waiting, ∀ a ∈ s.answers, a.id = call.id →
    bytesOf a.id s.unread = tagged (.reply a.id) a.text
  kept : ∀ byte ∈ s.leader_buffer, ∀ call ∈ s.waiting,
    byte.2 ≠ .reply call.id
  returned : ∀ id text, (id, text) ∈ s.returned →
    ∃ a ∈ s.answers, a.id = id ∧ a.text = text

section

variable {s : LeaderStream} {id : ℕ}

theorem bytesOf_append (id : ℕ) (first second : List (UInt8 × Origin)) :
    bytesOf id (first ++ second) = bytesOf id first ++ bytesOf id second :=
  List.filter_append _ _

theorem bytesOf_eq_nil {stream : List (UInt8 × Origin)}
    (hall : ∀ byte ∈ stream, byte.2 ≠ .reply id) : bytesOf id stream = [] := by
  simpa [bytesOf, List.filter_eq_nil_iff] using hall

theorem bytesOf_eq_self {stream : List (UInt8 × Origin)}
    (hall : ∀ byte ∈ stream, byte.2 = .reply id) : bytesOf id stream = stream := by
  simpa [bytesOf, List.filter_eq_self] using hall

theorem Replies.forward (hreplies : Replies s) (hrequests : Requests s)
    (toLeader : List (UInt8 × ℕ)) (sent : List (List UInt8))
    (forwarder : Forwarder) :
    Replies
      { s with
        toLeader
        waiting := s.waiting ++ [⟨s.sent.length, forwarder⟩]
        sent } := by
  obtain ⟨hasked, hawaited, hkept, hreturned⟩ := hreplies
  refine ⟨hasked, ?_, ?_, hreturned⟩
  · intro call hcall a ha heq
    rcases List.mem_append.mp hcall with hcall | hcall
    · exact hawaited call hcall a ha heq
    · obtain rfl := List.mem_singleton.mp hcall
      exact absurd heq (hrequests.answers_lt a ha).ne
  · intro byte hbyte call hcall
    rcases List.mem_append.mp hcall with hcall | hcall
    · exact hkept byte hbyte call hcall
    · obtain rfl := List.mem_singleton.mp hcall
      intro howner
      obtain ⟨a, ha, heq⟩ := hasked byte (List.mem_append_left _ hbyte) _ howner
      exact absurd heq (hrequests.answers_lt a ha).ne

theorem Replies.finishCall (hreplies : Replies s) (id : ℕ) :
    Replies (finishCall id s) := by
  obtain ⟨hasked, hawaited, hkept, hreturned⟩ := hreplies
  refine ⟨hasked, fun call hcall => ?_, fun byte hbyte call hcall => ?_, hreturned⟩
  · exact hawaited call (List.mem_of_mem_filter hcall)
  · exact hkept byte hbyte call (List.mem_of_mem_filter hcall)

theorem Replies.receives (hreplies : Replies s) {text : List (UInt8 × Origin)}
    (htext : ∀ byte ∈ text, ∀ id, byte.2 ≠ .reply id)
    (pushed : List (ℕ × Json)) :
    Replies { s with unread := s.unread ++ text, pushed } := by
  obtain ⟨hasked, hawaited, hkept, hreturned⟩ := hreplies
  refine ⟨?_, ?_, hkept, hreturned⟩
  · intro byte hbyte id howner
    rw [← List.append_assoc] at hbyte
    rcases List.mem_append.mp hbyte with hbyte | hbyte
    · exact hasked byte hbyte id howner
    · exact absurd howner (htext byte hbyte id)
  · intro call hcall a ha heq
    have hnone : bytesOf a.id text = [] :=
      bytesOf_eq_nil fun byte hbyte => htext byte hbyte a.id
    rw [bytesOf_append, hawaited call hcall a ha heq, hnone, List.append_nil]

theorem Replies.answered (hreplies : Replies s)
    (hunanswered : ∀ a ∈ s.answers, a.id ≠ id) (line text : List UInt8)
    (toLeader : List (UInt8 × ℕ)) :
    Replies
      { s with
        toLeader
        answers := s.answers ++ [⟨id, line, text⟩]
        unread := s.unread ++ tagged (.reply id) text } := by
  obtain ⟨hasked, hawaited, hkept, hreturned⟩ := hreplies
  refine ⟨?_, ?_, hkept, ?_⟩
  · intro byte hbyte id' howner
    rw [← List.append_assoc] at hbyte
    rcases List.mem_append.mp hbyte with hbyte | hbyte
    · obtain ⟨a, ha, heq⟩ := hasked byte hbyte id' howner
      exact ⟨a, List.mem_append_left _ ha, heq⟩
    · rw [snd_of_mem_tagged hbyte] at howner
      cases howner
      exact ⟨_, List.mem_append_right _ (List.mem_singleton_self _), rfl⟩
  · intro call hcall a ha heq
    rw [bytesOf_append]
    rcases List.mem_append.mp ha with hold | hnew
    · have hnone : bytesOf a.id (tagged (.reply id) text) = [] := by
        refine bytesOf_eq_nil fun byte hbyte => ?_
        rw [snd_of_mem_tagged hbyte]
        intro hsame
        exact hunanswered a hold (Origin.reply.inj hsame).symm
      rw [hawaited call hcall a hold heq, hnone, List.append_nil]
    · obtain rfl := List.mem_singleton.mp hnew
      have hnone : bytesOf id s.unread = [] := by
        refine bytesOf_eq_nil fun byte hbyte howner => ?_
        obtain ⟨a, ha, heq⟩ := hasked byte (List.mem_append_right _ hbyte) id howner
        exact hunanswered a ha heq
      have hall : bytesOf id (tagged (.reply id) text) = tagged (.reply id) text :=
        bytesOf_eq_self fun byte hbyte => snd_of_mem_tagged hbyte
      rw [hnone, hall, List.nil_append]
  · intro id' text' hmem
    obtain ⟨a, ha, heq⟩ := hreturned id' text' hmem
    exact ⟨a, List.mem_append_left _ ha, heq⟩

/-- The main loop takes bytes nobody waits for. -/
theorem Replies.mainReads (hreplies : Replies s) {n : ℕ}
    (hfree : ∀ byte ∈ s.unread.take n, ∀ call ∈ s.waiting,
      byte.2 ≠ .reply call.id)
    {leader_buffer : List (UInt8 × Origin)}
    (hbuffer : leader_buffer <:+ s.leader_buffer ++ s.unread.take n)
    (dispatched : List (Origin × Json)) :
    Replies
      { s with leader_buffer, dispatched, unread := s.unread.drop n } := by
  obtain ⟨hasked, hawaited, hkept, hreturned⟩ := hreplies
  refine ⟨?_, ?_, ?_, hreturned⟩
  · intro byte hbyte
    refine hasked byte ?_
    rcases List.mem_append.mp hbyte with hbyte | hbyte
    · rcases List.mem_append.mp (hbuffer.subset hbyte) with hbyte | hbyte
      · exact List.mem_append_left _ hbyte
      · exact List.mem_append_right _ (List.mem_of_mem_take hbyte)
    · exact List.mem_append_right _ (List.mem_of_mem_drop hbyte)
  · intro call hcall a ha heq
    have hnone : bytesOf a.id (s.unread.take n) = [] := by
      refine bytesOf_eq_nil fun byte hbyte => ?_
      rw [heq]
      exact hfree byte hbyte call hcall
    have hsplit := bytesOf_append a.id (s.unread.take n) (s.unread.drop n)
    rw [List.take_append_drop, hnone, List.nil_append] at hsplit
    rw [← hsplit]
    exact hawaited call hcall a ha heq
  · intro byte hbyte call hcall
    rcases List.mem_append.mp (hbuffer.subset hbyte) with hbyte | hbyte
    · exact hkept byte hbyte call hcall
    · exact hfree byte hbyte call hcall

/-- A call that reads while only its reply is unread gets all of it. -/
theorem Replies.text_eq (hreplies : Replies s) {call : Call}
    (hcall : call ∈ s.waiting)
    (halone : ∀ byte ∈ s.unread, byte.2 = .reply call.id)
    (hunread : s.unread ≠ []) :
    ∃ a ∈ s.answers, a.id = call.id ∧ a.text = s.unread.map Prod.fst := by
  obtain ⟨byte, hbyte⟩ := List.exists_mem_of_ne_nil _ hunread
  obtain ⟨a, ha, heq⟩ := hreplies.asked byte (List.mem_append_right _ hbyte)
    call.id (halone byte hbyte)
  refine ⟨a, ha, heq, ?_⟩
  have hall := hreplies.awaited call hcall a ha heq
  rw [heq, bytesOf_eq_self halone] at hall
  rw [hall, map_fst_tagged]

theorem Replies.forwardReads (hreplies : Replies s) {call : Call}
    (hcall : call ∈ s.waiting)
    (halone : ∀ byte ∈ s.unread, byte.2 = .reply call.id)
    (hunread : s.unread ≠ [])
    {result : List (ℕ × List UInt8)}
    (hresult : ∀ r ∈ result, r = (call.id, s.unread.map Prod.fst)) :
    Replies
      { LeaderStream.finishCall call.id s with
        unread := []
        returned := s.returned ++ result } := by
  obtain ⟨hasked, hawaited, hkept, hreturned⟩ := hreplies.finishCall call.id
  refine ⟨?_, ?_, hkept, ?_⟩
  · intro byte hbyte
    rw [List.append_nil] at hbyte
    exact hasked byte (List.mem_append_left _ hbyte)
  · intro other hother a ha heq
    rw [← hawaited other hother a ha heq]
    refine (bytesOf_eq_nil fun byte hbyte howner => ?_).symm
    obtain ⟨-, hne⟩ := List.mem_filter.mp hother
    rw [halone byte hbyte, heq] at howner
    have hsame := Origin.reply.inj howner
    simp [hsame] at hne
  · intro id text hmem
    rcases List.mem_append.mp hmem with hmem | hmem
    · exact hreturned id text hmem
    · obtain ⟨rfl, rfl⟩ := Prod.mk.inj (hresult _ hmem)
      exact hreplies.text_eq hcall halone hunread

end

/-! ## The pushed commands -/

/-- What the worker has of the stream beyond the lines it has dispatched. -/
def pending (s : LeaderStream) : List (UInt8 × Origin) :=
  s.leader_buffer ++ s.unread

/-- The buffer holds the beginning of a line, every line belongs to one text,
and the commands pushed are those dispatched and those still to come. -/
structure Pushes (parse : List UInt8 → Option Json) (s : LeaderStream) :
    Prop where
  partialLine : ∀ byte ∈ s.leader_buffer, isNewline byte = false
  oneOwner : OneOwner Prod.snd isNewline (pending s)
  terminated : Terminated isNewline (pending s)
  pushes : pushesDispatched s ++ pushesIn parse (pending s) = s.pushed

section

variable {parse : List UInt8 → Option Json} {s : LeaderStream}

theorem Pushes.congr {s' : LeaderStream} (hpushes : Pushes parse s)
    (hbuffer : s'.leader_buffer = s.leader_buffer) (hunread : s'.unread = s.unread)
    (hdispatched : s'.dispatched = s.dispatched)
    (hpushed : s'.pushed = s.pushed) : Pushes parse s' := by
  obtain ⟨hbegun, howner, hterminated, hall⟩ := hpushes
  refine ⟨by rwa [hbuffer], ?_, ?_, ?_⟩
  · rwa [pending, hbuffer, hunread]
  · rwa [pending, hbuffer, hunread]
  · rwa [pushesDispatched, pending, hdispatched, hbuffer, hunread, hpushed]

theorem Pushes.receives {s' : LeaderStream} (hpushes : Pushes parse s)
    {owner : Origin} {text : List UInt8}
    (htext : Terminated isNewline (tagged owner text))
    (hbuffer : s'.leader_buffer = s.leader_buffer)
    (hunread : s'.unread = s.unread ++ tagged owner text)
    (hdispatched : s'.dispatched = s.dispatched)
    (hpushed : s'.pushed = s.pushed ++ pushesIn parse (tagged owner text)) :
    Pushes parse s' := by
  obtain ⟨hbegun, howner, hterminated, hall⟩ := hpushes
  have hpending : pending s' = pending s ++ tagged owner text := by
    rw [pending, hbuffer, hunread, ← List.append_assoc, ← pending]
  refine ⟨by rwa [hbuffer], ?_, ?_, ?_⟩
  · rw [hpending]
    exact howner.append hterminated
      (oneOwner_of_forall fun byte hbyte => snd_of_mem_tagged hbyte)
  · rw [hpending]
    exact hterminated.append htext
  · rw [hpending, pushesIn_of_terminated hterminated, hpushed, ← hall,
      ← List.append_assoc, pushesDispatched, hdispatched, ← pushesDispatched]

/-- The main loop frames what it reads, none of which is a null byte. -/
theorem Pushes.mainReads (hpushes : Pushes parse s) {n : ℕ}
    (hbytes : ∀ byte ∈ s.unread.take n, byte.1 ≠ 0) :
    (handle_leader_data parse (s.unread.take n) s).leader_buffer <:+
        s.leader_buffer ++ s.unread.take n ∧
      Pushes parse
        { handle_leader_data parse (s.unread.take n) s with
          unread := s.unread.drop n } := by
  obtain ⟨hbegun, howner, hterminated, hall⟩ := hpushes
  have hwhole : ((s.unread.take n).takeWhile fun byte => decide (byte.1 ≠ 0)) =
      s.unread.take n := by
    rw [List.takeWhile_eq_self_iff]
    simpa using hbytes
  have hstream : pending s =
      (s.leader_buffer ++ s.unread.take n) ++ s.unread.drop n := by
    rw [List.append_assoc, List.take_append_drop, pending]
  have hsuffix := remainder_suffix isNewline
    (s.leader_buffer ++ s.unread.take n)
  rw [hstream] at howner hterminated hall
  unfold handle_leader_data
  simp only [hwhole]
  refine ⟨hsuffix, ⟨not_mem_remainder _, ?_, ?_, ?_⟩⟩
  · obtain ⟨first, hfirst⟩ := hsuffix
    refine howner.suffix ⟨first, ?_⟩
    rw [pending, ← List.append_assoc, hfirst]
  · rw [Terminated, remainder_append] at hterminated
    exact hterminated
  · rw [pushesIn, lines_append] at hall
    simp only [List.filterMap_append, ← List.append_assoc] at hall
    simp only [pushesDispatched, List.filterMap_append, pushesIn, pending]
    exact hall

/-- While only an awaited reply is unread, the main loop is between lines. -/
theorem Pushes.leader_buffer_eq_nil (hpushes : Pushes parse s)
    (hreplies : Replies s) {call : Call} (hcall : call ∈ s.waiting)
    (halone : ∀ byte ∈ s.unread, byte.2 = .reply call.id)
    (hunread : s.unread ≠ []) : s.leader_buffer = [] := by
  by_contra hbuffer
  obtain ⟨last, hlast⟩ : ∃ last, s.leader_buffer.getLast? = some last :=
    ⟨_, List.getLast?_eq_some_getLast hbuffer⟩
  obtain ⟨byte, hbyte⟩ : ∃ byte, s.unread.head? = some byte :=
    ⟨_, List.head?_eq_some_head hunread⟩
  have hsame := hpushes.oneOwner.unterminated hpushes.partialLine hlast hbyte
  refine hreplies.kept last (List.mem_of_getLast? hlast) call hcall ?_
  rw [hsame]
  exact halone byte (List.mem_of_mem_head? hbyte)

/-- A call that reads its own reply takes no push. -/
theorem Pushes.forwardReads {s' : LeaderStream} (hpushes : Pushes parse s)
    {id : ℕ} (halone : ∀ byte ∈ s.unread, byte.2 = .reply id)
    (hempty : s.leader_buffer = [])
    (hbuffer : s'.leader_buffer = s.leader_buffer) (hunread : s'.unread = [])
    (hdispatched : s'.dispatched = s.dispatched)
    (hpushed : s'.pushed = s.pushed) : Pushes parse s' := by
  have hpending : pending s' = [] := by
    rw [pending, hbuffer, hunread, hempty, List.append_nil]
  have hnone : pushesIn parse (pending s) = [] := by
    refine pushesIn_eq_nil fun byte hbyte push howner => ?_
    rw [pending, hempty, List.nil_append] at hbyte
    rw [halone byte hbyte] at howner
    cases howner
  have hall := hpushes.pushes
  rw [hnone, List.append_nil] at hall
  refine ⟨by simp [hbuffer, hempty], ?_, ?_, ?_⟩
  · rw [hpending]
    exact List.isChain_nil
  · rw [hpending]
    exact terminated_nil
  · rw [hpending, pushesDispatched, hdispatched, ← pushesDispatched, hall, hpushed]
    simp [pushesIn, lines]

end

/-! ## Whole runs -/

structure Inv (parse : List UInt8 → Option Json) (s : LeaderStream) : Prop where
  requests : Requests s
  replies : Replies s
  pushes : Pushes parse s

section

variable {parse : List UInt8 → Option Json} {s s' : LeaderStream} {label : Label}

theorem Inv.matched (hinv : Inv parse s) : Matched s := by
  obtain ⟨hrequests, hreplies, hpushes⟩ := hinv
  refine ⟨fun id text hmem => ?_, ⟨_, hpushes.pushes⟩, fun hunread => ?_⟩
  · obtain ⟨a, ha, rfl, rfl⟩ := hreplies.returned id text hmem
    exact ⟨a.line, hrequests.answered a ha, ha⟩
  · have hall := hpushes.pushes
    have hlines := congrArg Prod.fst (split_of_forall_not hpushes.partialLine)
    have hnone : pushesIn parse (pending s) = [] := by
      rw [pending, hunread, List.append_nil, pushesIn,
        show lines isNewline s.leader_buffer = [] from hlines]
      rfl
    rwa [hnone, List.append_nil] at hall

theorem mem_result {id : ℕ} {forwarder : Forwarder} {bytes : List UInt8}
    (hbytes : forwarder = .cmdPort → ∀ byte ∈ bytes, byte ≠ 0) :
    ∀ r ∈ forwarder.result id bytes, r = (id, bytes) := by
  intro r hr
  cases forwarder with
  | peerManager => simpa [Forwarder.result] using hr
  | registration => simp [Forwarder.result] at hr
  | cmdPort =>
      have hwhole : (bytes.takeWhile fun byte => decide (byte ≠ 0)) = bytes := by
        rw [List.takeWhile_eq_self_iff]
        simpa using hbytes rfl
      rw [Forwarder.result, hwhole] at hr
      simpa using hr

theorem Inv.step (hinv : Inv parse s) (hok : Undisturbed s label)
    (hstep : step parse s label = some s') : Inv parse s' := by
  obtain ⟨hrequests, hreplies, hpushes⟩ := hinv
  cases label with
  | forward forwarder line =>
      simp only [LeaderStream.step, Option.ite_none_right_eq_some,
        Option.some.injEq, Bool.and_eq_true] at hstep
      obtain ⟨⟨hdumped, -⟩, rfl⟩ := hstep
      exact ⟨hrequests.forward hdumped _, hreplies.forward hrequests _ _ forwarder,
        hpushes.congr rfl rfl rfl rfl⟩
  | forwardReads id n =>
      simp only [LeaderStream.step] at hstep
      split at hstep
      · rename_i call hfind
        simp only [Option.ite_none_right_eq_some, Option.some.injEq] at hstep
        obtain ⟨⟨hpos, -, -⟩, rfl⟩ := hstep
        have hcall := List.mem_of_find?_eq_some hfind
        obtain rfl : call.id = id := by simpa using List.find?_some hfind
        obtain ⟨halone, rfl, htext⟩ := hok
        have hunread : s.unread ≠ [] := by
          rintro heq
          simp [heq] at hpos
        have hresult : ∀ r ∈ call.forwarder.result call.id
            (s.unread.map Prod.fst), r = (call.id, s.unread.map Prod.fst) := by
          refine mem_result fun hport byte hbyte => ?_
          obtain ⟨b, hb, rfl⟩ := List.mem_map.mp hbyte
          exact htext call hcall rfl hport b hb
        have hempty := hpushes.leader_buffer_eq_nil hreplies hcall halone hunread
        rw [List.take_length, List.drop_length]
        exact ⟨hrequests.congr rfl rfl rfl,
          hreplies.forwardReads hcall halone hunread hresult,
          hpushes.forwardReads halone hempty rfl rfl rfl rfl⟩
      · contradiction
  | forwardTimesOut id =>
      obtain rfl := Option.some.inj hstep
      exact ⟨hrequests.congr rfl rfl rfl, hreplies.finishCall id,
        hpushes.congr rfl rfl rfl rfl⟩
  | mainReads n =>
      simp only [LeaderStream.step, Option.ite_none_right_eq_some,
        Option.some.injEq] at hstep
      obtain ⟨-, rfl⟩ := hstep
      obtain ⟨hsuffix, hpushes'⟩ := hpushes.mainReads
        (n := n) fun byte hbyte => (hok byte hbyte).1
      exact ⟨hrequests.congr rfl rfl rfl,
        hreplies.mainReads (fun byte hbyte => (hok byte hbyte).2) hsuffix _,
        hpushes'⟩
  | leaderReplies message =>
      simp only [LeaderStream.step] at hstep
      split at hstep
      · rename_i line newline rest htake
        obtain rfl := Option.some.inj hstep
        obtain ⟨hunanswered, hrequests'⟩ := hrequests.takeLine htake
        refine ⟨hrequests' _ _, hreplies.answered hunanswered _ _ rest,
          hpushes.receives (terminated_response message) rfl rfl rfl ?_⟩
        rw [pushesIn_eq_nil, List.append_nil]
        intro byte hbyte id howner
        rw [snd_of_mem_tagged hbyte] at howner
        cases howner
      · contradiction
  | leaderPushes line =>
      simp only [LeaderStream.step] at hstep
      split at hstep
      · rename_i j hparse
        simp only [Option.ite_none_right_eq_some, Option.some.injEq,
          Bool.and_eq_true] at hstep
        obtain ⟨⟨⟨hdumped, hobject⟩, hcommand⟩, rfl⟩ := hstep
        refine ⟨hrequests.congr rfl rfl rfl, hreplies.receives ?_ _,
          hpushes.receives (terminated_written hdumped) rfl rfl rfl ?_⟩
        · intro byte hbyte id howner
          rw [snd_of_mem_tagged hbyte] at howner
          cases howner
        · rw [pushesIn_written hparse hdumped hobject hcommand]
      · contradiction
  | leaderNotifies message =>
      obtain rfl := Option.some.inj hstep
      refine ⟨hrequests.congr rfl rfl rfl, hreplies.receives ?_ _,
        hpushes.receives (terminated_response message) rfl rfl rfl ?_⟩
      · intro byte hbyte id howner
        rw [snd_of_mem_tagged hbyte] at howner
        cases howner
      · rw [pushesIn_eq_nil, List.append_nil]
        intro byte hbyte id howner
        rw [snd_of_mem_tagged hbyte] at howner
        cases howner

theorem inv_initial : Inv parse initial := by
  refine ⟨⟨⟨[], rfl, List.nodup_nil, ?_⟩, ?_⟩, ⟨?_, ?_, ?_, ?_⟩,
    ⟨?_, List.isChain_nil, rfl, rfl⟩⟩ <;> simp [initial]

/-- In every run in which a call reads only while nothing but its own reply is
unread and all at once, and the main loop leaves awaited replies alone, returned
replies are complete and belong to their commands, and every pushed command is
dispatched exactly once. -/
theorem matched_of_reachable
    (hreach : ReachableWhere (LeaderStream.step parse) Undisturbed initial s) :
    Matched s := by
  have hinv : Inv parse s := hreach.invariant (I := Inv parse)
    (fun hinv hok hstep => hinv.step hok hstep) inv_initial
  exact hinv.matched

end

/-! ## Two connections -/

/-- The text of a pushed `execRequest`. -/
def echoLine : List UInt8 :=
  ("\x7b\"command\":\"execRequest\",\"directory\":\"/tmp\"," ++
    "\"shellCmd\":\"echo hi\"\x7d").toUTF8.data.toList

def listPortsLine : List UInt8 :=
  "\x7b\"command\":\"listPorts\"\x7d".toUTF8.data.toList

def parseEcho (line : List UInt8) : Option Json :=
  if line = echoLine then some echoRequest else none

/-- A call gets its reply, after which a command is pushed. -/
def quietRun : List Label :=
  [.forward .cmdPort listPortsLine, .leaderReplies [79, 75],
    .forwardReads 0 3, .leaderPushes echoLine, .mainReads 66]

theorem quietRun_matched :
    ∃ s, execute (step parseEcho) initial quietRun = some s ∧
      s.returned = [(0, [79, 75, 10])] ∧ Matched s := by
  have hok : AllSteps (step parseEcho) Undisturbed initial quietRun := by decide
  exact ⟨_, rfl, rfl, matched_of_reachable (ReachableWhere.of_execute hok rfl)⟩

/-- A command is pushed before the leader replies: the call returns its text as
the reply, and the main loop never sees it. -/
theorem pushedBeforeReply_not_matched :
    ∃ s, Reachable (step parseEcho) initial s ∧
      s.returned = [(0, written echoLine)] ∧ s.answers = [] ∧ s.unread = [] ∧
        s.pushed ≠ pushesDispatched s ∧ ¬ Matched s := by
  have hrun : ∃ s, execute (step parseEcho) initial
      [.forward .peerManager listPortsLine, .leaderPushes echoLine,
        .forwardReads 0 66] = some s ∧ s.returned = [(0, written echoLine)] ∧
      s.answers = [] ∧ s.unread = [] ∧ s.pushed = [(0, echoRequest)] ∧
        pushesDispatched s = [] :=
    ⟨_, rfl, rfl, rfl, rfl, rfl, rfl⟩
  obtain ⟨s, hrun, hreturned, hanswers, hunread, hpushed, hdispatched⟩ := hrun
  refine ⟨s, Reachable.of_execute hrun, hreturned, hanswers, hunread,
    by simp [hpushed, hdispatched], fun hmatched => ?_⟩
  obtain ⟨line, -, hmem⟩ := hmatched.replies 0 (written echoLine) (by simp [hreturned])
  simp [hanswers] at hmem

end LeaderStream

end AutomateLinux
