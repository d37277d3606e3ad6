import AutomateLinux.WindowExtension
import Mathlib.Data.List.Nodup
import Mathlib.Tactic.IntervalCases

/-!
# Answers of the window extension

As long as the answers fit the buffers, one read takes the whole answer.  Then nothing is
unread while the daemon waits for nothing, and a request that has not returned is either
still in the stream to the extension or its answer is all that is unread.
-/

namespace AutomateLinux

namespace WindowExtension

open TransitionSystem Utf8

/-! ## What the extension writes -/

section

variable {windows : List Window} {request : Request} {text : List Char}

theorem digitChar_ne_nul {n : ℕ} (hn : n < 16) : n.digitChar ≠ '\x00' := by
  interval_cases n <;> decide

theorem not_nul_stringifyChar (c : Char) : '\x00' ∉ stringifyChar c := by
  unfold stringifyChar
  split_ifs with _ _ _ _ _ _ _ hcontrol
  iterate 7 decide
  · have hhigh := digitChar_ne_nul (n := c.toNat / 16) (by omega)
    have hlow := digitChar_ne_nul (n := c.toNat % 16) (by omega)
    simp [hhigh.symm, hlow.symm]
  · rintro hc
    obtain rfl := List.mem_singleton.mp hc
    exact hcontrol (by decide)

theorem not_nul_to_string (i : Int) : '\x00' ∉ (to_string i).toList := by
  have hdigits (n : ℕ) : '\x00' ∉ Nat.toDigits 10 n := fun hmem =>
    absurd (isDigit_toDigits n _ hmem) (by decide)
  cases i with
  | ofNat n =>
      show '\x00' ∉ (Nat.repr n).toList
      rw [Nat.toList_repr]
      exact hdigits n
  | negSucc n =>
      show '\x00' ∉ ("-" ++ Nat.repr (n + 1)).toList
      rw [String.toList_append, Nat.toList_repr, List.mem_append, not_or]
      exact ⟨by decide, hdigits (n + 1)⟩

theorem not_nul_stringifyText (text : Option String) : '\x00' ∉ stringifyText text := by
  cases text with
  | none => decide
  | some text =>
      simp only [stringifyText, List.mem_append, List.mem_flatMap, not_or, not_exists, not_and]
      exact ⟨⟨by decide, fun c _ => not_nul_stringifyChar c⟩, by decide⟩

theorem not_nul_stringifyWindow (w : Window) (index : Int) :
    '\x00' ∉ stringifyWindow w index := by
  have hid : '\x00' ∉ "\x7b\"id\":".toList := by decide
  have htitle : '\x00' ∉ ",\"title\":".toList := by decide
  have hclass : '\x00' ∉ ",\"wm_class\":".toList := by decide
  have hworkspace : '\x00' ∉ ",\"workspace\":".toList := by decide
  have hclose : '\x00' ∉ "\x7d".toList := by decide
  have happend {first second : List Char} : '\x00' ∉ first → '\x00' ∉ second →
      '\x00' ∉ first ++ second := List.not_mem_append
  exact happend (happend (happend (happend (happend (happend (happend (happend hid
    (not_nul_to_string w.id)) htitle) (not_nul_stringifyText w.title)) hclass)
    (not_nul_stringifyText w.wm_class)) hworkspace) (not_nul_to_string index)) hclose

theorem mem_of_mem_commaSeparated {c : Char} {items : List (List Char)}
    (hc : c ∈ commaSeparated items) : c = ',' ∨ ∃ item ∈ items, c ∈ item := by
  induction items using commaSeparated.induct with
  | case1 => exact absurd hc List.not_mem_nil
  | case2 item => exact Or.inr ⟨item, List.mem_singleton_self item, hc⟩
  | case3 item items _ ih =>
      rw [commaSeparated, List.mem_append, List.mem_append] at hc
      · rcases hc with (hc | hc) | hc
        · exact Or.inr ⟨item, List.mem_cons_self, hc⟩
        · exact Or.inl (List.mem_singleton.mp hc)
        · refine (ih hc).imp_right fun ⟨item', hitem, hmem⟩ => ?_
          exact ⟨item', List.mem_cons_of_mem item hitem, hmem⟩
      · assumption

/-- Each item of the list is a window on its workspace. -/
theorem exists_of_mapM {winList : List (List Char)}
    (hlist : (windows.mapM fun w => w.workspace.map (stringifyWindow w)) = some winList) :
    ∀ item ∈ winList, ∃ w index, item = stringifyWindow w index := by
  induction windows generalizing winList with
  | nil =>
      obtain rfl : [] = winList := by simpa using hlist
      simp
  | cons w windows ih =>
      simp only [List.mapM_cons, Option.bind_eq_bind, Option.bind_eq_some_iff,
        Option.map_eq_some_iff, Option.pure_def, Option.some.injEq] at hlist
      obtain ⟨_, ⟨index, -, rfl⟩, rest, hrest, rfl⟩ := hlist
      intro item hitem
      rcases List.mem_cons.mp hitem with rfl | hitem
      · exact ⟨w, index, rfl⟩
      · exact ih hrest item hitem

theorem not_nul_handleMessage (htext : handleMessage windows request = some text) :
    '\x00' ∉ text := by
  cases request with
  | listWindows =>
      simp only [handleMessage, Option.bind_eq_bind, Option.bind_eq_some_iff,
        Option.some.injEq] at htext
      obtain ⟨winList, hlist, rfl⟩ := htext
      simp only [List.mem_append, not_or]
      refine ⟨⟨by decide, fun hc => ?_⟩, by decide⟩
      rcases mem_of_mem_commaSeparated hc with hc | ⟨item, hitem, hc⟩
      · exact absurd hc (by decide)
      · obtain ⟨w, index, rfl⟩ := exists_of_mapM hlist item hitem
        exact not_nul_stringifyWindow w index hc
  | activateWindow winId =>
      obtain rfl := Option.some.inj htext
      simp only [List.mem_append, not_or]
      refine ⟨⟨⟨⟨by decide, ?_⟩, by decide⟩, ?_⟩, by decide⟩
      · split <;> decide
      · cases winId with
        | none => decide
        | some id => exact not_nul_to_string id

/-- The handlers read the answer as a C string. -/
theorem takeWhile_answer {h : Handled} {bytes : List UInt8} (hanswer : h.answer = some bytes) :
    bytes.takeWhile (fun byte => byte ≠ 0) = bytes := by
  obtain ⟨text, htext, rfl⟩ := Option.map_eq_some_iff.mp hanswer
  rw [List.takeWhile_eq_self_iff]
  intro byte hbyte
  rw [decide_eq_true_eq]
  rintro rfl
  exact not_nul_handleMessage htext ((mem_encode_iff encodeChar_nul).mp hbyte)

theorem answer_ne_nil {h : Handled} {bytes : List UInt8} (hanswer : h.answer = some bytes) :
    bytes ≠ [] := by
  obtain ⟨text, htext, rfl⟩ := Option.map_eq_some_iff.mp hanswer
  have hnewline : '\n' ∈ text := by
    cases hrequest : h.request with
    | listWindows =>
        rw [hrequest] at htext
        simp only [handleMessage, Option.bind_eq_bind, Option.bind_eq_some_iff,
          Option.some.injEq] at htext
        obtain ⟨winList, -, rfl⟩ := htext
        exact List.mem_append_right _ (by decide)
    | activateWindow winId =>
        rw [hrequest] at htext
        obtain rfl := Option.some.inj htext
        exact List.mem_append_right _ (by decide)
  exact List.ne_nil_of_mem ((mem_encode_iff encodeChar_newline).mpr hnewline)

theorem mapM_eq_none_iff : (windows.mapM fun w => w.workspace.map (stringifyWindow w)) = none ↔
    ∃ w ∈ windows, w.workspace = none := by
  induction windows with
  | nil => simp
  | cons w windows ih =>
      rw [List.mapM_cons]
      cases hworkspace : w.workspace with
      | none => simp [hworkspace]
      | some index =>
          have hrest : (∃ w' ∈ w :: windows, w'.workspace = none) ↔
              ∃ w' ∈ windows, w'.workspace = none := by simp [hworkspace]
          rw [hrest, ← ih]
          cases windows.mapM fun w => w.workspace.map (stringifyWindow w) <;> simp

/-- The extension answers everything but a list with a window that has no workspace. -/
theorem answer_eq_none_iff {h : Handled} : h.answer = none ↔
    h.request = .listWindows ∧ ∃ w ∈ h.windows, w.workspace = none := by
  rw [Handled.answer, Option.map_eq_none_iff]
  cases h.request with
  | listWindows =>
      rw [← mapM_eq_none_iff, eq_self_iff_true, true_and, handleMessage]
      cases h.windows.mapM fun w => w.workspace.map (stringifyWindow w) <;> simp
  | activateWindow winId => simp [handleMessage]

end

/-! ## Requests and their numbers -/

section

variable {s s' : Channel} {label : Label}

/-- The requests that the extension has yet to read. -/
def requests (lines : List Line) : List (ℕ × Request) :=
  lines.filterMap fun
    | .request id request => some (id, request)
    | .other => none

@[simp] theorem requests_append (lines more : List Line) :
    requests (lines ++ more) = requests lines ++ requests more :=
  List.filterMap_append

@[simp] theorem requests_request (id : ℕ) (request : Request) (rest : List Line) :
    requests (.request id request :: rest) = (id, request) :: requests rest := rfl

@[simp] theorem requests_other (rest : List Line) : requests (.other :: rest) = requests rest := rfl

@[simp] theorem requests_nil : requests [] = [] := rfl

@[simp] theorem requests_others (lines : List (List UInt8)) :
    requests (lines.map fun _ => .other) = [] := by
  induction lines with
  | nil => rfl
  | cons _ lines ih => exact ih

/-- The numbers that the two sides use are those of the requests in `asked`. -/
structure Numbered (s : Channel) : Prop where
  ids : (s.handled.map Handled.id ++ (requests s.toExtension).map Prod.fst).Nodup
  handled : ∀ h ∈ s.handled, s.asked[h.id]? = some h.request
  pending : ∀ asked ∈ requests s.toExtension, s.asked[asked.1]? = some asked.2
  waiting : ∀ asked, s.waiting = some asked → s.asked[asked.1]? = some asked.2
  returned : ∀ answer ∈ s.returned, ∃ request, s.asked[answer.1]? = some request ∧
    answer.2.length ≤ request.room

theorem numbered_initial : Numbered initial :=
  ⟨List.nodup_nil, nofun, nofun, nofun, nofun⟩

theorem getElem?_append_of_some {asked more : List Request} {id : ℕ} {request : Request}
    (hasked : asked[id]? = some request) : (asked ++ more)[id]? = some request := by
  rw [List.getElem?_append_left (List.getElem?_eq_some_iff.mp hasked).1, hasked]

theorem Numbered.ask (hnumbered : Numbered s) {request : Request}
    (hstep : step s (.ask request) = some s') : Numbered s' := by
  simp only [step, Option.ite_none_right_eq_some, Option.some.injEq] at hstep
  obtain ⟨-, rfl⟩ := hstep
  have hfresh {id : ℕ} {earlier : Request} (hasked : s.asked[id]? = some earlier) :
      id ≠ s.asked.length := (List.getElem?_eq_some_iff.mp hasked).1.ne
  have hlast : (s.asked ++ [request])[s.asked.length]? = some request := by simp
  constructor
  · rw [requests_append, List.map_append, ← List.append_assoc]
    refine List.nodup_append.mpr ⟨hnumbered.ids, List.nodup_singleton _, fun id hid id' hid' => ?_⟩
    obtain rfl := List.mem_singleton.mp hid'
    rcases List.mem_append.mp hid with hid | hid
    · obtain ⟨h, hh, rfl⟩ := List.mem_map.mp hid
      exact hfresh (hnumbered.handled h hh)
    · obtain ⟨asked, hasked, rfl⟩ := List.mem_map.mp hid
      exact hfresh (hnumbered.pending asked hasked)
  · exact fun h hh => getElem?_append_of_some (hnumbered.handled h hh)
  · intro asked hasked
    rw [requests_append, List.mem_append] at hasked
    rcases hasked with hasked | hasked
    · exact getElem?_append_of_some (hnumbered.pending asked hasked)
    · obtain rfl := List.mem_singleton.mp hasked
      exact hlast
  · rintro asked hasked
    obtain rfl := Option.some.inj hasked
    exact hlast
  · intro answer hanswer
    obtain ⟨earlier, hearlier, hroom⟩ := hnumbered.returned answer hanswer
    exact ⟨earlier, getElem?_append_of_some hearlier, hroom⟩

theorem Numbered.answerRead (hnumbered : Numbered s) (hstep : step s .answerRead = some s') :
    Numbered s' := by
  simp only [step] at hstep
  split at hstep
  · exact nomatch hstep
  · rename_i id request hwaiting
    rw [Option.ite_none_right_eq_some, Option.some.injEq] at hstep
    obtain ⟨-, rfl⟩ := hstep
    refine ⟨hnumbered.ids, hnumbered.handled, hnumbered.pending, nofun, fun answer hanswer => ?_⟩
    rcases List.mem_append.mp hanswer with hanswer | hanswer
    · exact hnumbered.returned answer hanswer
    · obtain rfl := List.mem_singleton.mp hanswer
      exact ⟨request, hnumbered.waiting _ hwaiting,
        (List.takeWhile_prefix _).length_le.trans (List.length_take_le _ _)⟩

theorem Numbered.mainReads (hnumbered : Numbered s) (hstep : step s .mainReads = some s') :
    Numbered s' := by
  simp only [step, Option.ite_none_right_eq_some, Option.some.injEq] at hstep
  obtain ⟨-, rfl⟩ := hstep
  have hsame : requests (handle_client_data s).toExtension = requests s.toExtension := by
    rw [handle_client_data, requests_append, requests_others, List.append_nil]
  refine ⟨?_, hnumbered.handled, ?_, hnumbered.waiting, hnumbered.returned⟩
  · rw [hsame]
    exact hnumbered.ids
  · rw [hsame]
    exact hnumbered.pending

theorem Numbered.extensionReads (hnumbered : Numbered s) {windows : List Window}
    (hstep : step s (.extensionReads windows) = some s') : Numbered s' := by
  obtain ⟨hids, hhandled, hrequests, hwaiting, hreturned⟩ := hnumbered
  simp only [step] at hstep
  split at hstep
  · exact nomatch hstep
  · rename_i rest hlines
    obtain rfl := Option.some.inj hstep
    rw [hlines] at hids hrequests
    exact ⟨hids, hhandled, hrequests, hwaiting, hreturned⟩
  · rename_i id request rest hlines
    obtain rfl := Option.some.inj hstep
    rw [hlines, requests_request] at hids hrequests
    refine ⟨?_, fun h hh => ?_, ?_, hwaiting, hreturned⟩
    · rw [List.map_append, List.append_assoc]
      exact hids
    · rcases List.mem_append.mp hh with hh | hh
      · exact hhandled h hh
      · obtain rfl := List.mem_singleton.mp hh
        exact hrequests _ List.mem_cons_self
    · exact fun asked hasked => hrequests asked (List.mem_cons_of_mem _ hasked)

theorem Numbered.step (hnumbered : Numbered s) (hstep : step s label = some s') :
    Numbered s' := by
  cases label with
  | ask request => exact hnumbered.ask hstep
  | answerRead => exact hnumbered.answerRead hstep
  | mainReads => exact hnumbered.mainReads hstep
  | extensionReads windows => exact hnumbered.extensionReads hstep

/-- A request is handled once. -/
theorem Numbered.eq_of_id (hnumbered : Numbered s) {h h' : Handled} (hh : h ∈ s.handled)
    (hh' : h' ∈ s.handled) (hid : h.id = h'.id) : h = h' :=
  List.inj_on_of_nodup_map (List.nodup_append.mp hnumbered.ids).1 hh hh' hid

/-! ## Answers that fit -/

/-- What a step keeps of what the parties have done. -/
structure Extends (s s' : Channel) : Prop where
  handled : s.handled ⊆ s'.handled
  returned : s.returned ⊆ s'.returned
  asked : ∀ (id : ℕ) request, s.asked[id]? = some request → s'.asked[id]? = some request

theorem extends_of_step (hstep : step s label = some s') : Extends s s' := by
  cases label with
  | ask request =>
      simp only [step, Option.ite_none_right_eq_some, Option.some.injEq] at hstep
      obtain ⟨-, rfl⟩ := hstep
      exact ⟨fun _ => id, fun _ => id, fun _ _ => getElem?_append_of_some⟩
  | answerRead =>
      simp only [step] at hstep
      split at hstep
      · exact nomatch hstep
      · rw [Option.ite_none_right_eq_some, Option.some.injEq] at hstep
        obtain ⟨-, rfl⟩ := hstep
        exact ⟨fun _ => id, List.subset_append_left _ _, fun _ _ => id⟩
  | mainReads =>
      simp only [step, Option.ite_none_right_eq_some, Option.some.injEq] at hstep
      obtain ⟨-, rfl⟩ := hstep
      exact ⟨fun _ => id, fun _ => id, fun _ _ => id⟩
  | extensionReads windows =>
      simp only [step] at hstep
      split at hstep
      · exact nomatch hstep
      · obtain rfl := Option.some.inj hstep
        exact ⟨fun _ => id, fun _ => id, fun _ _ => id⟩
      · obtain rfl := Option.some.inj hstep
        exact ⟨List.subset_append_left _ _, fun _ => id, fun _ _ => id⟩

theorem Extends.fits (hextends : Extends s s') (hfits : Fits s') : Fits s :=
  fun answer hanswer h hh => hfits answer (hextends.returned hanswer) h (hextends.handled hh)

theorem Extends.own (hextends : Extends s s') {answer : ℕ × List UInt8} (hown : Own s answer) :
    Own s' answer := by
  obtain ⟨h, hh, hid, hasked, hanswer⟩ := hown
  exact ⟨h, hextends.handled hh, hid, hextends.asked _ _ hasked, hanswer⟩

/-- Nothing of an answer is left over: only the request that the daemon waits for is under
way, or its answer is all that is unread. -/
structure Orderly (s : Channel) : Prop where
  matched : Matched s
  idle : s.waiting = none → s.unread = [] ∧ requests s.toExtension = []
  busy : ∀ asked, s.waiting = some asked →
    (s.unread = [] ∧ requests s.toExtension = [asked]) ∨
      (requests s.toExtension = [] ∧
        ∃ h ∈ s.handled, h.id = asked.1 ∧ h.request = asked.2 ∧ s.unread = h.answer.getD [])

theorem orderly_initial : Orderly initial :=
  ⟨⟨nofun, rfl⟩, fun _ => ⟨rfl, rfl⟩, nofun⟩

theorem Orderly.ask (horderly : Orderly s) {request : Request}
    (hstep : step s (.ask request) = some s') : Orderly s' := by
  have hextends := extends_of_step hstep
  simp only [step, Option.ite_none_right_eq_some, Option.some.injEq] at hstep
  obtain ⟨hidle, rfl⟩ := hstep
  obtain ⟨hunread, hrequests⟩ := horderly.idle (Option.isNone_iff_eq_none.mp hidle)
  refine ⟨⟨fun answer hanswer => hextends.own (horderly.matched.own answer hanswer),
    horderly.matched.commands⟩, nofun, fun asked hasked => Or.inl ⟨hunread, ?_⟩⟩
  obtain rfl := Option.some.inj hasked
  rw [requests_append, hrequests]
  rfl

/-- The read takes the whole answer. -/
theorem Orderly.answerRead (horderly : Orderly s) (hnumbered : Numbered s)
    (hstep : step s .answerRead = some s') (hfits : Fits s') : Orderly s' := by
  have hextends := extends_of_step hstep
  simp only [step] at hstep
  split at hstep
  · exact nomatch hstep
  · rename_i id request hwaiting
    rw [Option.ite_none_right_eq_some, Option.some.injEq] at hstep
    obtain ⟨hne, rfl⟩ := hstep
    rcases horderly.busy _ hwaiting with ⟨hnil, -⟩ | ⟨hrequests, h, hh, rfl, rfl, hunread⟩
    · exact absurd hnil hne
    cases hanswer : h.answer with
    | none =>
        rw [hanswer] at hunread
        exact absurd hunread hne
    | some bytes =>
        rw [hanswer, Option.getD_some] at hunread
        have hlength := hfits _ (List.mem_append_right _ (List.mem_singleton_self _)) h
          (hextends.handled hh) rfl
        rw [hanswer, Option.getD_some] at hlength
        have htake : (s.unread.take h.request.room).takeWhile (fun byte => byte ≠ 0) = bytes := by
          rw [hunread, List.take_of_length_le hlength, takeWhile_answer hanswer]
        refine ⟨⟨fun answer hmem => ?_, horderly.matched.commands⟩,
          fun _ => ⟨?_, hrequests⟩, nofun⟩
        · rcases List.mem_append.mp hmem with hmem | hmem
          · exact hextends.own (horderly.matched.own answer hmem)
          · obtain rfl := List.mem_singleton.mp hmem
            exact ⟨h, hh, rfl, hnumbered.handled h hh, by rw [htake, hanswer]⟩
        · rw [hunread]
          exact List.drop_eq_nil_of_le hlength

theorem Orderly.extensionReads (horderly : Orderly s) {windows : List Window}
    (hstep : step s (.extensionReads windows) = some s') : Orderly s' := by
  have hextends := extends_of_step hstep
  have hown (answer) (hanswer : answer ∈ s.returned) : Own s' answer :=
    hextends.own (horderly.matched.own answer hanswer)
  simp only [step] at hstep
  split at hstep
  · exact nomatch hstep
  · rename_i rest hlines
    obtain rfl := Option.some.inj hstep
    have hidle := horderly.idle
    have hbusy := horderly.busy
    rw [hlines, requests_other] at hidle hbusy
    exact ⟨⟨hown, horderly.matched.commands⟩, hidle, hbusy⟩
  · rename_i id request rest hlines
    obtain rfl := Option.some.inj hstep
    cases hwaiting : s.waiting with
    | none =>
        have hnone := (horderly.idle hwaiting).2
        rw [hlines] at hnone
        exact nomatch hnone
    | some asked =>
        rcases horderly.busy _ hwaiting with ⟨hunread, hrequests⟩ | ⟨hrequests, -⟩
        · rw [hlines, requests_request, List.cons.injEq] at hrequests
          obtain ⟨rfl, hrest⟩ := hrequests
          refine ⟨⟨hown, horderly.matched.commands⟩, nofun, fun asked hasked =>
            Or.inr ⟨hrest, ⟨id, request, windows⟩,
              List.mem_append_right _ (List.mem_singleton_self _), ?_⟩⟩
          obtain rfl := Option.some.inj hasked
          exact ⟨rfl, rfl, by rw [hunread, List.nil_append]⟩
        · rw [hlines] at hrequests
          exact nomatch hrequests

theorem Orderly.step (horderly : Orderly s) (hnumbered : Numbered s)
    (hstep : step s label = some s') (hfits : Fits s') : Orderly s' := by
  cases label with
  | ask request => exact horderly.ask hstep
  | answerRead => exact horderly.answerRead hnumbered hstep hfits
  | mainReads =>
      -- Nothing is unread while no request waits.
      simp only [WindowExtension.step, Option.ite_none_right_eq_some] at hstep
      exact absurd (horderly.idle (Option.isNone_iff_eq_none.mp hstep.1.1)).1 hstep.1.2
  | extensionReads windows => exact horderly.extensionReads hstep

theorem inv_of_reachable (hreach : Reachable step initial s) :
    Numbered s ∧ (Fits s → Orderly s) := by
  refine Reachable.invariant (I := fun s => Numbered s ∧ (Fits s → Orderly s)) hreach ?_
    ⟨numbered_initial, fun _ => orderly_initial⟩
  rintro s label s' ⟨hnumbered, horderly⟩ hstep
  exact ⟨hnumbered.step hstep, fun hfits =>
    (horderly ((extends_of_step hstep).fits hfits)).step hnumbered hstep hfits⟩

/-- Requests get their own answers, and no part of an answer is taken for a command, as
long as the answers fit the buffers, and no longer. -/
theorem matched_iff_fits (hreach : Reachable step initial s) : Matched s ↔ Fits s := by
  obtain ⟨hnumbered, horderly⟩ := inv_of_reachable hreach
  refine ⟨fun hmatched answer hmem h hh hid => ?_, fun hfits => (horderly hfits).matched⟩
  obtain ⟨h', hh', hid', hasked, hanswer⟩ := hmatched.own answer hmem
  obtain rfl := hnumbered.eq_of_id hh hh' (hid.trans hid'.symm)
  obtain ⟨request, hrequest, hlength⟩ := hnumbered.returned answer hmem
  obtain rfl := Option.some.inj (hrequest.symm.trans hasked)
  rw [hanswer]
  exact hlength

/-- `listWindows` with two windows, and `activateWindow` with the id of a third that is
closed. -/
def twoWindows : List Label :=
  [.extensionReads [], .ask .listWindows,
    .extensionReads [⟨7, some "notes", some "gedit", some 0⟩, ⟨9, none, none, some 1⟩], .answerRead,
    .ask (.activateWindow (some 8)), .extensionReads [⟨7, some "notes", some "gedit", some 0⟩],
    .answerRead]

theorem twoWindows_matched : ∃ s, execute step initial twoWindows = some s ∧
    s.returned.length = 2 ∧ Matched s := by
  refine ⟨_, rfl, rfl, ?_⟩
  refine (matched_iff_fits (Reachable.of_execute
    (show execute step initial twoWindows = some _ from rfl))).mpr ?_
  decide

/-! ## Answers that never come -/

/-- The daemon waits for an answer that the extension does not give. -/
structure Stuck (asked : ℕ × Request) (s : Channel) : Prop where
  waiting : s.waiting = some asked
  unread : s.unread = []
  requests : requests s.toExtension = []

theorem Stuck.step {asked : ℕ × Request} (hstuck : Stuck asked s)
    (hstep : step s label = some s') : Stuck asked s' := by
  obtain ⟨hwaiting, hunread, hrequests⟩ := hstuck
  cases label with
  | ask request => simp [WindowExtension.step, hwaiting] at hstep
  | answerRead => simp [WindowExtension.step, hwaiting, hunread] at hstep
  | mainReads => simp [WindowExtension.step, hwaiting] at hstep
  | extensionReads windows =>
      simp only [WindowExtension.step] at hstep
      split at hstep
      · exact nomatch hstep
      · rename_i rest hlines
        obtain rfl := Option.some.inj hstep
        rw [hlines] at hrequests
        exact ⟨hwaiting, hunread, hrequests⟩
      · rename_i id request rest hlines
        rw [hlines] at hrequests
        exact nomatch hrequests

/-- Once the extension has read the request, there is something to read. -/
theorem exists_unread {asked : ℕ × Request} (hrequests : requests s.toExtension = [asked]) :
    ∃ s', Reachable step s s' ∧ s'.waiting = s.waiting ∧ s'.unread ≠ [] := by
  generalize hlines : s.toExtension = lines at hrequests
  induction lines generalizing s with
  | nil => exact nomatch hrequests
  | cons line rest ih =>
      cases line with
      | other =>
          obtain ⟨s', hreach, hwaiting, hunread⟩ := ih (s := { s with toExtension := rest }) rfl
            hrequests
          exact ⟨s', .head ⟨.extensionReads [], trivial, by rw [step, hlines]⟩ hreach, hwaiting,
            hunread⟩
      | request id request =>
          -- With no window open, none lacks a workspace.
          have hanswer : (⟨id, request, []⟩ : Handled).answer ≠ none := by
            rw [Ne, answer_eq_none_iff]
            rintro ⟨-, w, hw, -⟩
            exact absurd hw List.not_mem_nil
          obtain ⟨bytes, hbytes⟩ := Option.ne_none_iff_exists'.mp hanswer
          let after : Channel :=
            { s with
              toExtension := rest
              unread := s.unread ++ bytes
              handled := s.handled ++ [⟨id, request, []⟩] }
          have hread : step s (.extensionReads []) = some after := by
            simp only [step, hlines, hbytes, Option.getD_some, after]
          exact ⟨after, .single ⟨_, trivial, hread⟩, rfl,
            List.append_ne_nil_of_right_ne_nil _ (answer_ne_nil hbytes)⟩

theorem exists_answerRead {asked : ℕ × Request} (hwaiting : s.waiting = some asked)
    (hunread : s.unread ≠ []) : ∃ s', step s .answerRead = some s' ∧ s'.waiting = none := by
  simp only [step, hwaiting, if_pos hunread]
  exact ⟨_, rfl, rfl⟩

/-- The extension lists a window that is being closed. -/
def withoutWorkspace : List Label :=
  [.ask .listWindows, .extensionReads [], .extensionReads [⟨7, some "notes", some "gedit", none⟩]]

end

end WindowExtension

end AutomateLinux
