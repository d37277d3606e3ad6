import AutomateLinux.LineEditing
import AutomateLinux.WireGuardPeers

/-!
# Registering a peer with the server

Before the setup script appends the block of a peer, it has `sed` remove the one that
the server has under that name.  The name stands in the second line of a block, after
the section header, and the range that is removed begins there.
-/

namespace AutomateLinux

namespace WireGuard

open CleanBetween (wholeLines wholeLines_append_line wholeLines_of_unterminated isLineFeed)
open LineEditing

/-! ## The setup script -/

/-- A regular expression, in which a dot stands for any character. -/
def namePattern (NAME : Text) : Text := "# ".toList ++ NAME

def isRegistered (NAME config : Text) : Bool :=
  (fileLines config).any (search '.' (namePattern NAME))

/-- `sed` looks for the end of a range from the line after its first. -/
def removeBlock (NAME config : Text) : Text :=
  (deleteRange (fun line => search '.' (namePattern NAME) (chomp line))
    (fun line => decide (chomp line = [])) false (wholeLines config)).flatten

def registerPeer (peer : Peer) (config : Text) : Text :=
  (if isRegistered peer.name config then removeBlock peer.name config else config) ++ peer.block

/-! ## What it is meant to do -/

def isHeader (line : Text) : Bool := line.head? = some '['

/-- The lines between the header of a peer's section and the next header. -/
def sections : List Text → List (List Text)
  | [] => []
  | line :: rest =>
      if line = "[Peer]".toList then rest.takeWhile (fun line => !isHeader line) :: sections rest
      else sections rest

/-- Empty lines mean nothing in a configuration. -/
def peerBlocks (config : Text) : List (List Text) :=
  sections ((fileLines config).filter fun line => decide (line ≠ []))

def Peer.body (peer : Peer) : List Text :=
  [peer.nameLine, peer.publicKeyLine, peer.allowedIPsLine]

/-- An `[Interface]` section that has no comments at all. -/
structure PlainInterface extends InterfaceSection where
  noHash : '#' ∉ text

/-- The blocks of the other peers are left as they were, and the new one follows them. -/
def ReplacesBlock (interface : PlainInterface) (peers : List Peer) (peer : Peer) : Prop :=
  peerBlocks (registerPeer peer (serverConfig interface.toInterfaceSection peers)) =
    (peers.filter (fun old => decide (old.name ≠ peer.name)) ++ [peer]).map Peer.body

/-! ## Lines of the edited file -/

section

variable {text rest line : Text} {lines : List Text} {c : Char}

theorem fileLines_append_lineFeed (text rest : Text) :
    fileLines (text ++ '\n' :: rest) = fileLines (text ++ ['\n']) ++ fileLines rest := by
  induction text using LineFraming.line_induction isLineFeed with
  | unterminated text hnone =>
      rw [fileLines_line_append hnone, fileLines_line_append hnone]
      rfl
  | line line newline front hline hnewline ih =>
      obtain rfl : newline = '\n' := by simpa [isLineFeed] using hnewline
      rw [List.append_assoc, List.append_assoc, List.cons_append, List.cons_append,
        fileLines_line_append hline, fileLines_line_append hline, ih]
      rfl

theorem mem_of_mem_fileLines (hline : line ∈ fileLines text) (hc : c ∈ line) : c ∈ text := by
  induction text using LineFraming.line_induction isLineFeed with
  | unterminated text hnone =>
      rw [fileLines_of_unterminated hnone] at hline
      split at hline
      · simp at hline
      · rwa [List.mem_singleton.mp hline] at hc
  | line first newline front hfirst hnewline ih =>
      obtain rfl : newline = '\n' := by simpa [isLineFeed] using hnewline
      rw [fileLines_line_append hfirst] at hline
      rcases List.mem_cons.mp hline with rfl | hfront
      · exact List.mem_append_left _ hc
      · exact List.mem_append_right _ (List.mem_cons_of_mem _ (ih hfront))

/-- Some of the lines of a file are the lines of the file they make up. -/
theorem wholeLines_flatten (hlines : lines.Sublist (wholeLines text)) :
    wholeLines lines.flatten = lines := by
  induction text using LineFraming.line_induction isLineFeed generalizing lines with
  | unterminated text hnone =>
      rw [wholeLines_of_unterminated hnone] at hlines
      split at hlines
      · rw [List.sublist_nil.mp hlines]
        rfl
      · rename_i htext
        rcases List.sublist_singleton.mp hlines with rfl | rfl
        · rfl
        · rw [List.flatten_singleton, wholeLines_of_unterminated hnone, if_neg htext]
  | line line newline front hline hnewline ih =>
      obtain rfl : newline = '\n' := by simpa [isLineFeed] using hnewline
      rw [wholeLines_append_line hline] at hlines
      cases hlines with
      | cons _ hrest => exact ih hrest
      | cons_cons _ hrest =>
          rw [List.flatten_cons, List.append_assoc, List.singleton_append,
            wholeLines_append_line hline, ih hrest]

theorem fileLines_removeBlock (NAME config : Text) :
    fileLines (removeBlock NAME config) =
      deleteRange (search '.' (namePattern NAME)) (fun line => decide (line = [])) false
        (fileLines config) := by
  unfold fileLines removeBlock
  rw [wholeLines_flatten (deleteRange_sublist false _)]
  exact map_deleteRange (search '.' (namePattern NAME)) (fun line => decide (line = [])) chomp false
    (wholeLines config)

end

/-! ## What is left of a block -/

section

variable {text : Text} {c : Char}

theorem not_mem_of_chars {isChar : Char → Bool} (htext : ∀ c ∈ text, isChar c = true)
    (hc : isChar c = false) : c ∉ text := by
  intro hmem
  rw [htext c hmem] at hc
  contradiction

theorem search_eq_false_of_no_hash (NAME : Text) (hhash : '#' ∉ text) :
    search '.' (namePattern NAME) text = false :=
  search_eq_false_of_not_mem (by decide) hhash

/-- Of the other lines of a block none can match. -/
theorem search_nameLine (NAME : Text) (peer : Peer) :
    search '.' (namePattern NAME) peer.nameLine = matchesAt '.' NAME peer.name := by
  have hname : '#' ∉ peer.name := not_mem_of_chars peer.nameChars rfl
  have hhash : '#' ∉ ' ' :: peer.name := by
    rw [List.mem_cons]
    rintro (h | h)
    · contradiction
    · exact hname h
  calc
    search '.' (namePattern NAME) peer.nameLine =
        matchesAt '.' (' ' :: NAME) (' ' :: peer.name) :=
      search_cons_self (by decide) hhash
    _ = matchesAt '.' NAME peer.name := matchesAt_append [' ']

theorem search_publicKeyLine (NAME : Text) (peer : Peer) :
    search '.' (namePattern NAME) peer.publicKeyLine = false := by
  have hkey : '#' ∉ peer.publicKey := not_mem_of_chars peer.publicKeyChars rfl
  refine search_eq_false_of_no_hash NAME fun hhash => ?_
  rcases List.mem_append.mp hhash with h | h
  · exact absurd h (by decide)
  · exact hkey h

theorem search_allowedIPsLine (NAME : Text) (peer : Peer) :
    search '.' (namePattern NAME) peer.allowedIPsLine = false := by
  have hip : '#' ∉ peer.vpnIp := not_mem_of_chars peer.vpnIpChars rfl
  refine search_eq_false_of_no_hash NAME fun hhash => ?_
  rcases List.mem_append.mp hhash with h | h
  · exact absurd h (by decide)
  · rcases List.mem_append.mp h with h | h
    · exact hip h
    · exact absurd h (by decide)

/-- The header stays in any case. -/
def remaining (NAME : Text) (peer : Peer) : List Text :=
  if matchesAt '.' NAME peer.name then [] else peer.body

variable {NAME : Text} {lines : List Text}

/-- The lines that stay, without the empty ones. -/
def kept (NAME : Text) (inside : Bool) (lines : List Text) : List Text :=
  (deleteRange (search '.' (namePattern NAME)) (fun line => decide (line = [])) inside
    lines).filter fun line => decide (line ≠ [])

/-- An empty line ends a range and means nothing otherwise. -/
theorem kept_empty_cons (inside : Bool) (lines : List Text) :
    kept NAME inside ([] :: lines) = kept NAME false lines := by
  have hempty : search '.' (namePattern NAME) [] = false := rfl
  unfold kept
  cases inside with
  | true => rw [deleteRange_cons_of_ends (by decide)]
  | false => rw [deleteRange_cons_of_not_starts hempty, List.filter_cons_of_neg (by decide)]

/-- The range that a block begins ends in the next one. -/
theorem kept_block (peer : Peer) (inside : Bool) (rest : List Text) :
    ∃ after, kept NAME inside (peer.blockLines ++ rest) =
      "[Peer]".toList :: (remaining NAME peer ++ kept NAME after rest) := by
  have hheader : search '.' (namePattern NAME) "[Peer]".toList = false :=
    search_eq_false_of_no_hash NAME (by decide)
  have hbody : peer.body.filter (fun line => decide (line ≠ [])) = peer.body := rfl
  have hkept : kept NAME inside (peer.blockLines ++ rest) =
      "[Peer]".toList :: kept NAME false (peer.body ++ rest) := by
    show kept NAME inside ([] :: "[Peer]".toList :: (peer.body ++ rest)) = _
    rw [kept_empty_cons]
    unfold kept
    rw [deleteRange_cons_of_not_starts hheader, List.filter_cons_of_pos (by decide)]
  rw [hkept]
  by_cases hname : matchesAt '.' NAME peer.name = true
  · refine ⟨true, ?_⟩
    have hrest : ∀ line ∈ [peer.publicKeyLine, peer.allowedIPsLine],
        decide (line = []) = false := by
      intro line hline
      rcases List.mem_cons.mp hline with rfl | hline
      · rfl
      · rw [List.mem_singleton.mp hline]
        rfl
    rw [remaining, if_pos hname, List.nil_append]
    unfold kept Peer.body
    rw [List.cons_append, deleteRange_cons_of_starts (by rw [search_nameLine, hname]),
      deleteRange_inside hrest]
  · refine ⟨false, ?_⟩
    have hnone : ∀ line ∈ peer.body, search '.' (namePattern NAME) line = false := by
      simp only [Peer.body, List.forall_mem_cons]
      exact ⟨by rw [search_nameLine, Bool.eq_false_iff.mpr hname], search_publicKeyLine NAME peer,
        search_allowedIPsLine NAME peer, by simp⟩
    rw [remaining, if_neg hname]
    unfold kept
    rw [deleteRange_outside hnone, List.filter_append, hbody]

theorem kept_blocks (inside : Bool) (peers : List Peer) :
    kept NAME inside (peers.flatMap Peer.blockLines) =
      peers.flatMap fun peer => "[Peer]".toList :: remaining NAME peer := by
  induction peers generalizing inside with
  | nil => rfl
  | cons peer peers ih =>
      rw [List.flatMap_cons, List.flatMap_cons]
      obtain ⟨after, hafter⟩ := kept_block peer inside (peers.flatMap Peer.blockLines)
      rw [hafter, ih, List.cons_append]

theorem kept_append (hlines : ∀ line ∈ lines, search '.' (namePattern NAME) line = false)
    (rest : List Text) :
    kept NAME false (lines ++ rest) =
      lines.filter (fun line => decide (line ≠ [])) ++ kept NAME false rest := by
  unfold kept
  rw [deleteRange_outside hlines, List.filter_append]

theorem kept_of_none (hlines : ∀ line ∈ lines, search '.' (namePattern NAME) line = false) :
    kept NAME false lines = lines.filter fun line => decide (line ≠ []) := by
  have hall := kept_append hlines []
  rwa [List.append_nil, show kept NAME false [] = [] from rfl, List.append_nil] at hall

end

/-! ## What is left of a configuration -/

section

variable {NAME : Text}

theorem fileLines_blocks (peers : List Peer) :
    fileLines (peers.flatMap Peer.block) = peers.flatMap Peer.blockLines := by
  have hlines : ∀ line ∈ peers.flatMap Peer.blockLines, ∀ c ∈ line, isLineFeed c = false := by
    intro line hline
    obtain ⟨peer, -, hmem⟩ := List.mem_flatMap.mp hline
    exact peer.oneLine_blockLines line hmem
  have hblocks : peers.flatMap Peer.block = unlines (peers.flatMap Peer.blockLines) := by
    unfold unlines
    rw [List.flatMap_assoc]
    rfl
  rw [hblocks, fileLines_unlines hlines]

/-- The line break that the first block begins with may end the line before it. -/
theorem fileLines_serverConfig_cons (interface : InterfaceSection) (peer : Peer)
    (peers : List Peer) :
    fileLines (serverConfig interface (peer :: peers)) =
      fileLines (interface.text ++ ['\n']) ++
        (peer.blockLines.tail ++ peers.flatMap Peer.blockLines) := by
  unfold serverConfig
  rw [List.flatMap_cons, peer.block_eq, List.cons_append, fileLines_append_lineFeed,
    fileLines_unlines_append peer.oneLine_tail, fileLines_blocks]

theorem filter_fileLines_append_lineFeed (text : Text) :
    (fileLines (text ++ ['\n'])).filter (fun line => decide (line ≠ [])) =
      (fileLines text).filter fun line => decide (line ≠ []) := by
  have hsplit := filter_fileLines_append (fun line => decide (line ≠ [])) rfl text []
  rwa [fileLines_nil, List.filter_nil, List.append_nil] at hsplit

theorem kept_serverConfig (interface : PlainInterface) (peers : List Peer) :
    kept NAME false (fileLines (serverConfig interface.toInterfaceSection peers)) =
      (fileLines interface.text).filter (fun line => decide (line ≠ [])) ++
        peers.flatMap fun peer => "[Peer]".toList :: remaining NAME peer := by
  have hnone : ∀ text : Text, '#' ∉ text →
      ∀ line ∈ fileLines text, search '.' (namePattern NAME) line = false := by
    intro text hhash line hline
    exact search_eq_false_of_no_hash NAME fun h => hhash (mem_of_mem_fileLines hline h)
  cases peers with
  | nil =>
      unfold serverConfig
      rw [List.flatMap_nil, List.append_nil, List.flatMap_nil, List.append_nil]
      exact kept_of_none (hnone _ interface.noHash)
  | cons peer peers =>
      have hhash : '#' ∉ interface.text ++ ['\n'] := by
        intro h
        rcases List.mem_append.mp h with h | h
        · exact interface.noHash h
        · exact absurd h (by decide)
      have hblocks : kept NAME false (peer.blockLines.tail ++ peers.flatMap Peer.blockLines) =
          kept NAME false ((peer :: peers).flatMap Peer.blockLines) :=
        (kept_empty_cons false _).symm
      rw [fileLines_serverConfig_cons, kept_append (hnone _ hhash),
        filter_fileLines_append_lineFeed, hblocks, kept_blocks]

/-- Where `grep` finds nothing there is nothing that `sed` would remove. -/
theorem filter_fileLines_registerPeer (peer : Peer) (config : Text) :
    (fileLines (registerPeer peer config)).filter (fun line => decide (line ≠ [])) =
      kept peer.name false (fileLines config) ++ "[Peer]".toList :: peer.body := by
  have hbefore : (fileLines (if isRegistered peer.name config then removeBlock peer.name config
      else config)).filter (fun line => decide (line ≠ [])) =
        kept peer.name false (fileLines config) := by
    split
    · rw [fileLines_removeBlock]
      rfl
    · rename_i hfresh
      have hnone : ∀ line ∈ fileLines config, search '.' (namePattern peer.name) line = false := by
        simpa [isRegistered] using hfresh
      exact (kept_of_none hnone).symm
  unfold registerPeer
  rw [peer.block_eq, filter_fileLines_append _ rfl, hbefore, fileLines_unlines peer.oneLine_tail]
  rfl

end

/-! ## Sections -/

section

variable {lines : List Text} {bodies : List (List Text)}

theorem sections_append (hlines : ∀ line ∈ lines, line ≠ "[Peer]".toList) (rest : List Text) :
    sections (lines ++ rest) = sections rest := by
  induction lines with
  | nil => rfl
  | cons line lines ih =>
      obtain ⟨hline, hrest⟩ := List.forall_mem_cons.mp hlines
      rw [List.cons_append, sections, if_neg hline, ih hrest]

theorem sections_bodies (hbodies : ∀ body ∈ bodies, ∀ line ∈ body, isHeader line = false) :
    sections (bodies.flatMap fun body => "[Peer]".toList :: body) = bodies := by
  induction bodies with
  | nil => rfl
  | cons body bodies ih =>
      obtain ⟨hbody, hrest⟩ := List.forall_mem_cons.mp hbodies
      have hlines : ∀ line ∈ body, line ≠ "[Peer]".toList := by
        rintro line hline rfl
        have hheader := hbody _ hline
        contradiction
      have hnext : (bodies.flatMap fun body => "[Peer]".toList :: body).takeWhile
          (fun line => !isHeader line) = [] := by
        cases bodies <;> rfl
      rw [List.flatMap_cons, List.cons_append, sections, if_pos rfl, sections_append hlines,
        ih hrest, List.takeWhile_append_of_pos (fun line hline => by simp [hbody line hline]),
        hnext, List.append_nil]

end

theorem isHeader_body (peer : Peer) : ∀ line ∈ peer.body, isHeader line = false := by
  simp only [Peer.body, List.forall_mem_cons]
  exact ⟨rfl, rfl, rfl, by simp⟩

theorem isHeader_remaining (NAME : Text) (peer : Peer) :
    ∀ line ∈ remaining NAME peer, isHeader line = false := by
  unfold remaining
  split
  · simp
  · exact isHeader_body peer

/-- Of the blocks that matched only the headers are left. -/
theorem peerBlocks_registerPeer (interface : PlainInterface) (peers : List Peer) (peer : Peer) :
    peerBlocks (registerPeer peer (serverConfig interface.toInterfaceSection peers)) =
      peers.map (remaining peer.name) ++ [peer.body] := by
  have hinterface : ∀ line ∈ (fileLines interface.text).filter (fun line => decide (line ≠ [])),
      line ≠ "[Peer]".toList := by
    rintro line hline rfl
    exact (interface.noPeer _ (List.mem_of_mem_filter hline)).1 (List.prefix_refl _)
  have hbodies : ∀ body ∈ peers.map (remaining peer.name) ++ [peer.body],
      ∀ line ∈ body, isHeader line = false := by
    intro body hbody
    rcases List.mem_append.mp hbody with hold | hnew
    · obtain ⟨old, -, rfl⟩ := List.mem_map.mp hold
      exact isHeader_remaining peer.name old
    · rw [List.mem_singleton.mp hnew]
      exact isHeader_body peer
  have hlines : peers.flatMap (fun old => "[Peer]".toList :: remaining peer.name old) ++
      "[Peer]".toList :: peer.body =
        (peers.map (remaining peer.name) ++ [peer.body]).flatMap
          fun body => "[Peer]".toList :: body := by
    rw [List.flatMap_append, List.flatMap_map, List.flatMap_singleton]
  unfold peerBlocks
  rw [filter_fileLines_registerPeer, kept_serverConfig, List.append_assoc,
    sections_append hinterface, hlines, sections_bodies hbodies]

/-- A registration replaces nothing: as soon as a registered name begins with the new one,
if only because it is the same name, the header of its block is left without the block. -/
theorem replacesBlock_iff (interface : PlainInterface) (peers : List Peer) (peer : Peer) :
    ReplacesBlock interface peers peer ↔
      ∀ old ∈ peers, matchesAt '.' peer.name old.name = false := by
  have hblocks : ReplacesBlock interface peers peer ↔ peers.map (remaining peer.name) =
      (peers.filter fun old => decide (old.name ≠ peer.name)).map Peer.body := by
    unfold ReplacesBlock
    rw [peerBlocks_registerPeer, List.map_append]
    exact List.append_left_inj _
  rw [hblocks]
  constructor
  · intro hsame old hold
    have hlength := congrArg List.length hsame
    rw [List.length_map, List.length_map, eq_comm, List.length_filter_eq_length_iff] at hlength
    rw [List.filter_eq_self.mpr hlength] at hsame
    have hbody := List.map_inj_left.mp hsame old hold
    by_contra hmatch
    rw [remaining, if_pos (by simpa using hmatch)] at hbody
    exact absurd hbody.symm (List.cons_ne_nil _ _)
  · intro hnone
    have hother : ∀ old ∈ peers, decide (old.name ≠ peer.name) = true := by
      intro old hold
      refine decide_eq_true fun hname => ?_
      have hmatch := hnone old hold
      rw [hname, matchesAt_self] at hmatch
      contradiction
    rw [List.filter_eq_self.mpr hother]
    refine List.map_inj_left.mpr fun old hold => ?_
    rw [remaining, if_neg (by simp [hnone old hold])]

def laptop : Peer where
  name := "laptop".toList
  publicKey := "bGFwdG9w=".toList
  vpnIp := "10.0.0.2".toList
  name_ne := by decide
  publicKey_ne := by decide
  vpnIp_ne := by decide
  nameChars := List.all_eq_true.mp (by decide)
  publicKeyChars := List.all_eq_true.mp (by decide)
  vpnIpChars := List.all_eq_true.mp (by decide)

def laptop2 : Peer where
  name := "laptop-2".toList
  publicKey := "bGFwdG9wMg==".toList
  vpnIp := "10.0.0.3".toList
  name_ne := by decide
  publicKey_ne := by decide
  vpnIp_ne := by decide
  nameChars := List.all_eq_true.mp (by decide)
  publicKeyChars := List.all_eq_true.mp (by decide)
  vpnIpChars := List.all_eq_true.mp (by decide)

/-- Registering the first of two peers again removes what the server knows of the second. -/
theorem laptop_again_fails :
    ¬ ReplacesBlock { noPeersYet with noHash := by decide } [laptop, laptop2] laptop := by
  unfold ReplacesBlock
  decide +kernel

end WireGuard

end AutomateLinux
