import AutomateLinux.CleanBetween
import AutomateLinux.ClientSender

/-!
# The peers in the server's configuration

The setup script appends a block for every peer to the configuration of the WireGuard
server.  The daemon has `grep` print the lines of the blocks and reads them back, with
the peer being read carried from one section header to the next.
-/

namespace AutomateLinux

namespace WireGuard

open CleanBetween (wholeLines wholeLines_append_line wholeLines_of_unterminated isLineFeed)
open ClientSender (Members assign)

abbrev Text := List Char

/-! ## Lines -/

def chomp (line : Text) : Text := if line.getLast? = some '\n' then line.dropLast else line

/-- The lines of a file, as the line tools see them. -/
def fileLines (file : Text) : List Text := (wholeLines file).map chomp

def unlines (lines : List Text) : Text := lines.flatMap fun line => line ++ ['\n']

/-! ## The setup script -/

def isNameChar (c : Char) : Bool := c.isAlphanum || c = '-' || c = '_' || c = '.'

def isBase64Char (c : Char) : Bool := c.isAlphanum || c = '+' || c = '/' || c = '='

def isAddressChar (c : Char) : Bool := c.isDigit || c = '.'

/-- What `NAME`, `CLIENT_PUB` and `VPN_IP` are made of. -/
structure Peer where
  name : Text
  publicKey : Text
  vpnIp : Text
  name_ne : name ≠ []
  publicKey_ne : publicKey ≠ []
  vpnIp_ne : vpnIp ≠ []
  nameChars : ∀ c ∈ name, isNameChar c = true
  publicKeyChars : ∀ c ∈ publicKey, isBase64Char c = true
  vpnIpChars : ∀ c ∈ vpnIp, isAddressChar c = true

namespace Peer

variable (peer : Peer)

def nameLine : Text := "# ".toList ++ peer.name

def publicKeyLine : Text := "PublicKey = ".toList ++ peer.publicKey

def allowedIPsLine : Text := "AllowedIPs = ".toList ++ (peer.vpnIp ++ "/32".toList)

def blockLines : List Text :=
  [[], "[Peer]".toList, peer.nameLine, peer.publicKeyLine, peer.allowedIPsLine]

/-- What `echo -e` appends. -/
def block : Text := unlines peer.blockLines

end Peer

/-! ## The daemon -/

/-- The remote `grep` selects these lines. -/
def isListed (line : Text) : Bool :=
  "[Peer]".toList <+: line || "# ".toList <+: line || "PublicKey".toList <+: line ||
    "AllowedIPs".toList <+: line

/-- The exit code of `grep`, which is 1 if no line is selected, and what it prints. -/
def remoteGrep (config : Text) : Int × Text :=
  let selected := (fileLines config).filter isListed
  (if selected = [] then 1 else 0, unlines selected)

/-- `peers` and `current_peer`. -/
structure Listing where
  peers : List Json := []
  current_peer : Members := []

namespace Listing

/-- The previous peer is saved if there is one. -/
def saved (s : Listing) : List Json :=
  if s.current_peer = [] then s.peers else s.peers ++ [.object s.current_peer]

def set (s : Listing) (key : String) (value : Text) : Listing :=
  { s with current_peer := assign key (.string (String.ofList value)) s.current_peer }

end Listing

/-- What follows the first equality sign, without blanks in front. -/
def valueOf (line : Text) : Option Text :=
  let value := ((line.dropWhile (· ≠ '=')).drop 1).dropWhile (· = ' ')
  if value = [] then none else some value

/-- The loop body. -/
def readLine (s : Listing) (line : Text) : Listing :=
  let line := line.dropWhile fun c => c = ' ' || c = '\t'
  if line = [] then s
  else if "[Peer]".toList <+: line then { peers := s.saved, current_peer := [] }
  else if line.head? = some '#' ∧ 2 < line.length then s.set "name" (line.drop 2)
  else if "PublicKey".toList <+: line then
    match valueOf line with
    | some value => s.set "public_key" value
    | none => s
  else if "AllowedIPs".toList <+: line then
    match valueOf line with
    | some ip => s.set "vpn_ip" (ip.takeWhile (· ≠ '/'))
    | none => s
  else s

section

-- `dump(2)` of an `ordered_json`
variable (dump : Json → String)

/-- The handler, given the exit code and the output of the remote command. -/
def handleListWireGuardPeers (command : Int × Text) : CmdResult :=
  let (actual_exit_code, output) := command
  if actual_exit_code ≠ 0 then
    ⟨actual_exit_code, "Failed to list peers: " ++ String.ofList output⟩
  else
    let s : Listing := (fileLines output).foldl readLine {}
    ⟨0, dump (.array s.saved) ++ "\n"⟩

/-! ## Reading back what was written -/

/-- An `[Interface]` section: no line is a comment or begins or fills another section. -/
structure InterfaceSection where
  text : Text
  noComment : ∀ line ∈ fileLines text, line.head? ≠ some '#'
  noPeer : ∀ line ∈ fileLines text, ¬ "[Peer]".toList <+: line ∧
    ¬ "PublicKey".toList <+: line ∧ ¬ "AllowedIPs".toList <+: line

/-- The section, followed by a block for each peer. -/
def serverConfig (interface : InterfaceSection) (peers : List Peer) : Text :=
  interface.text ++ peers.flatMap Peer.block

def Peer.members (peer : Peer) : Members :=
  [("name", .string (String.ofList peer.name)),
    ("public_key", .string (String.ofList peer.publicKey)),
    ("vpn_ip", .string (String.ofList peer.vpnIp))]

def Peer.json (peer : Peer) : Json := .object peer.members

/-- The list of the peers is returned. -/
def ListsPeers (interface : InterfaceSection) (peers : List Peer) : Prop :=
  handleListWireGuardPeers dump (remoteGrep (serverConfig interface peers)) =
    ⟨0, dump (.array (peers.map Peer.json)) ++ "\n"⟩

end

/-! ## Lines of written files -/

section

variable {line text rest : Text} {lines : List Text}

@[simp] theorem fileLines_nil : fileLines [] = [] := rfl

theorem chomp_append_lineFeed (line : Text) : chomp (line ++ ['\n']) = line := by
  unfold chomp
  rw [if_pos (by simp), List.dropLast_concat]

theorem chomp_of_oneLine (hline : ∀ c ∈ line, isLineFeed c = false) : chomp line = line := by
  refine if_neg fun hlast => ?_
  have hfeed := hline '\n' (List.mem_of_getLast? hlast)
  contradiction

theorem fileLines_line_append (hline : ∀ c ∈ line, isLineFeed c = false) (rest : Text) :
    fileLines (line ++ '\n' :: rest) = line :: fileLines rest := by
  unfold fileLines
  rw [wholeLines_append_line hline, List.map_cons, chomp_append_lineFeed]

theorem fileLines_of_unterminated (htext : ∀ c ∈ text, isLineFeed c = false) :
    fileLines text = if text = [] then [] else [text] := by
  unfold fileLines
  rw [wholeLines_of_unterminated htext]
  split
  · rfl
  · rw [List.map_singleton, chomp_of_oneLine htext]

theorem fileLines_unlines_append (hlines : ∀ line ∈ lines, ∀ c ∈ line, isLineFeed c = false)
    (rest : Text) : fileLines (unlines lines ++ rest) = lines ++ fileLines rest := by
  induction lines with
  | nil => rfl
  | cons line lines ih =>
      obtain ⟨hline, hrest⟩ := List.forall_mem_cons.mp hlines
      have hfirst : unlines (line :: lines) ++ rest = line ++ '\n' :: (unlines lines ++ rest) := by
        simp [unlines]
      rw [hfirst, fileLines_line_append hline, ih hrest]
      rfl

theorem fileLines_unlines (hlines : ∀ line ∈ lines, ∀ c ∈ line, isLineFeed c = false) :
    fileLines (unlines lines) = lines := by
  have hall := fileLines_unlines_append hlines []
  rwa [List.append_nil, fileLines_nil, List.append_nil] at hall

/-- A line break that is appended ends a line, if only an empty one. -/
theorem filter_fileLines_append (selects : Text → Bool) (hempty : selects [] = false)
    (text rest : Text) :
    (fileLines (text ++ '\n' :: rest)).filter selects =
      (fileLines text).filter selects ++ (fileLines rest).filter selects := by
  induction text using LineFraming.line_induction isLineFeed with
  | unterminated text hnone =>
      rw [fileLines_line_append hnone, fileLines_of_unterminated hnone]
      split
      · rename_i hnil
        rw [hnil, List.filter_cons_of_neg (by simp [hempty])]
        rfl
      · rw [← List.singleton_append, List.filter_append]
  | line line newline front hline hnewline ih =>
      obtain rfl : newline = '\n' := by simpa [isLineFeed] using hnewline
      rw [List.append_assoc, List.cons_append, fileLines_line_append hline,
        fileLines_line_append hline, List.filter_cons, List.filter_cons, ih]
      split
      · rfl
      · rfl

end

/-! ## Lines of a block -/

namespace Peer

variable (peer : Peer)

theorem oneLine_of_chars {text : Text} {isChar : Char → Bool} (hfeed : isChar '\n' = false)
    (htext : ∀ c ∈ text, isChar c = true) : ∀ c ∈ text, isLineFeed c = false := by
  intro c hc
  rw [Bool.eq_false_iff]
  intro hline
  obtain rfl : c = '\n' := by simpa [isLineFeed] using hline
  rw [htext _ hc] at hfeed
  contradiction

theorem oneLine_blockLines : ∀ line ∈ peer.blockLines, ∀ c ∈ line, isLineFeed c = false := by
  have hname := oneLine_of_chars rfl peer.nameChars
  have hkey := oneLine_of_chars rfl peer.publicKeyChars
  have hip := oneLine_of_chars rfl peer.vpnIpChars
  have hplain : ∀ text : Text, (text.all fun c => !isLineFeed c) = true →
      ∀ c ∈ text, isLineFeed c = false := by
    intro text hall c hc
    simpa using List.all_eq_true.mp hall c hc
  unfold blockLines nameLine publicKeyLine allowedIPsLine
  simp only [List.forall_mem_cons, List.forall_mem_append]
  exact ⟨hplain [] rfl, hplain "[Peer]".toList rfl, ⟨hplain "# ".toList rfl, hname⟩,
    ⟨hplain "PublicKey = ".toList rfl, hkey⟩,
    ⟨hplain "AllowedIPs = ".toList rfl, hip, hplain "/32".toList rfl⟩, by simp⟩

theorem block_eq : peer.block = '\n' :: unlines peer.blockLines.tail := rfl

theorem oneLine_tail : ∀ line ∈ peer.blockLines.tail, ∀ c ∈ line, isLineFeed c = false :=
  fun line hline => peer.oneLine_blockLines line (List.mem_of_mem_tail hline)

/-- The empty line is all that `grep` leaves out. -/
theorem filter_blockLines : peer.blockLines.filter isListed = peer.blockLines.tail := rfl

end Peer

/-! ## What `grep` prints -/

theorem isListed_interface (interface : InterfaceSection) :
    ∀ line ∈ fileLines interface.text, isListed line = false := by
  intro line hline
  obtain ⟨hheader, hkey, hips⟩ := interface.noPeer line hline
  have hcomment : ¬ "# ".toList <+: line := by
    rintro ⟨rest, rfl⟩
    exact interface.noComment _ hline rfl
  unfold isListed
  simp only [hheader, hcomment, hkey, hips, decide_false, Bool.or_false]

theorem filter_isListed_append (text : Text) (peers : List Peer) :
    (fileLines (text ++ peers.flatMap Peer.block)).filter isListed =
      (fileLines text).filter isListed ++ peers.flatMap fun peer => peer.blockLines.tail := by
  induction peers generalizing text with
  | nil => simp
  | cons peer peers ih =>
      have hrest := ih []
      rw [List.nil_append, fileLines_nil, List.filter_nil, List.nil_append] at hrest
      rw [List.flatMap_cons, List.flatMap_cons, peer.block_eq, List.cons_append,
        filter_fileLines_append isListed rfl, fileLines_unlines_append peer.oneLine_tail,
        List.filter_append, hrest, ← peer.filter_blockLines, List.filter_filter]
      simp only [Bool.and_self]

theorem remoteGrep_serverConfig (interface : InterfaceSection) (peers : List Peer) :
    remoteGrep (serverConfig interface peers) =
      (if peers = [] then 1 else 0, unlines (peers.flatMap fun peer => peer.blockLines.tail)) := by
  have hnone : (fileLines interface.text).filter isListed = [] := by
    rw [List.filter_eq_nil_iff]
    exact fun line hline => by simp [isListed_interface interface line hline]
  have hselected : (fileLines (serverConfig interface peers)).filter isListed =
      peers.flatMap fun peer => peer.blockLines.tail := by
    unfold serverConfig
    rw [filter_isListed_append, hnone, List.nil_append]
  unfold remoteGrep
  rw [hselected]
  cases peers <;> rfl

/-! ## What the daemon reads -/

theorem valueOf_publicKeyLine (peer : Peer) :
    valueOf peer.publicKeyLine = some peer.publicKey := by
  have hblank : peer.publicKey.dropWhile (· = ' ') = peer.publicKey := by
    cases hkey : peer.publicKey with
    | nil => rfl
    | cons c rest =>
        have hc := peer.publicKeyChars c (by simp [hkey])
        refine List.dropWhile_cons_of_neg ?_
        intro hspace
        obtain rfl : c = ' ' := of_decide_eq_true hspace
        contradiction
  have hvalue : valueOf peer.publicKeyLine =
      if peer.publicKey.dropWhile (· = ' ') = [] then none
      else some (peer.publicKey.dropWhile (· = ' ')) := rfl
  rw [hvalue, hblank, if_neg peer.publicKey_ne]

theorem valueOf_allowedIPsLine (peer : Peer) :
    valueOf peer.allowedIPsLine = some (peer.vpnIp ++ "/32".toList) := by
  have hblank : (peer.vpnIp ++ "/32".toList).dropWhile (· = ' ') = peer.vpnIp ++ "/32".toList := by
    cases hip : peer.vpnIp with
    | nil => rfl
    | cons c rest =>
        have hc := peer.vpnIpChars c (by simp [hip])
        refine List.dropWhile_cons_of_neg ?_
        intro hspace
        obtain rfl : c = ' ' := of_decide_eq_true hspace
        contradiction
  have hvalue : valueOf peer.allowedIPsLine =
      if (peer.vpnIp ++ "/32".toList).dropWhile (· = ' ') = [] then none
      else some ((peer.vpnIp ++ "/32".toList).dropWhile (· = ' ')) := rfl
  rw [hvalue, hblank, if_neg (by simp)]

theorem takeWhile_address (peer : Peer) :
    (peer.vpnIp ++ "/32".toList).takeWhile (· ≠ '/') = peer.vpnIp := by
  have hno : ∀ c ∈ peer.vpnIp, decide (c ≠ '/') = true := by
    intro c hc
    refine decide_eq_true ?_
    rintro rfl
    have hchar := peer.vpnIpChars _ hc
    contradiction
  rw [List.takeWhile_append_of_pos hno, show "/32".toList = ['/', '3', '2'] from rfl,
    List.takeWhile_cons_of_neg (by decide), List.append_nil]

/-- A block saves the peer before it and leaves its own to be saved. -/
theorem foldl_readLine_block (s : Listing) (peer : Peer) :
    peer.blockLines.tail.foldl readLine s = { peers := s.saved, current_peer := peer.members } := by
  have hname : ∀ s : Listing, readLine s peer.nameLine = s.set "name" peer.name := by
    intro s
    have hlong : 2 < peer.nameLine.length := by
      have hpositive := List.length_pos_of_ne_nil peer.name_ne
      show 2 < peer.name.length + 2
      omega
    exact if_pos ⟨rfl, hlong⟩
  have hkey : ∀ s : Listing, readLine s peer.publicKeyLine = s.set "public_key" peer.publicKey := by
    intro s
    have hread : readLine s peer.publicKeyLine =
        match valueOf peer.publicKeyLine with
        | some value => s.set "public_key" value
        | none => s := rfl
    rw [hread, valueOf_publicKeyLine]
  have hips : ∀ s : Listing, readLine s peer.allowedIPsLine = s.set "vpn_ip" peer.vpnIp := by
    intro s
    have hread : readLine s peer.allowedIPsLine =
        match valueOf peer.allowedIPsLine with
        | some ip => s.set "vpn_ip" (ip.takeWhile (· ≠ '/'))
        | none => s := rfl
    rw [hread, valueOf_allowedIPsLine]
    dsimp only
    rw [takeWhile_address]
  have hheader : readLine s "[Peer]".toList = { peers := s.saved, current_peer := [] } := rfl
  show readLine (readLine (readLine (readLine s "[Peer]".toList) peer.nameLine)
    peer.publicKeyLine) peer.allowedIPsLine = _
  rw [hheader, hname, hkey, hips]
  rfl

/-- After every block all peers up to the last one have been saved, each once. -/
theorem saved_foldl_readLine (s : Listing) (peers : List Peer) :
    ((peers.flatMap fun peer => peer.blockLines.tail).foldl readLine s).saved =
      s.saved ++ peers.map Peer.json := by
  induction peers generalizing s with
  | nil => simp
  | cons peer peers ih =>
      rw [List.flatMap_cons, List.foldl_append, foldl_readLine_block, ih, List.map_cons]
      show (s.saved ++ [peer.json]) ++ peers.map Peer.json = _
      rw [List.append_assoc, List.singleton_append]

theorem handleListWireGuardPeers_serverConfig (dump : Json → String)
    (interface : InterfaceSection) (peers : List Peer) :
    handleListWireGuardPeers dump (remoteGrep (serverConfig interface peers)) =
      if peers = [] then ⟨1, "Failed to list peers: "⟩
      else ⟨0, dump (.array (peers.map Peer.json)) ++ "\n"⟩ := by
  rw [remoteGrep_serverConfig]
  split
  · rename_i hnone
    subst hnone
    rfl
  · have hlines : ∀ line ∈ peers.flatMap fun peer => peer.blockLines.tail,
        ∀ c ∈ line, isLineFeed c = false := by
      intro line hline
      obtain ⟨peer, -, hmem⟩ := List.mem_flatMap.mp hline
      exact peer.oneLine_tail line hmem
    have hsaved := saved_foldl_readLine {} peers
    unfold handleListWireGuardPeers
    dsimp only
    rw [if_neg (by decide), fileLines_unlines hlines, hsaved]
    rfl

/-- Every list of peers is read back but the empty one, for which `grep` selects no line
and the daemon takes its exit code for a failure. -/
theorem listsPeers_iff (dump : Json → String) (interface : InterfaceSection)
    (peers : List Peer) : ListsPeers dump interface peers ↔ peers ≠ [] := by
  unfold ListsPeers
  rw [handleListWireGuardPeers_serverConfig]
  split
  · rename_i hnone
    exact iff_of_false (by simp) (by simp [hnone])
  · rename_i hsome
    exact iff_of_true rfl hsome

/-- The configuration of a server that has no peers yet. -/
def noPeersYet : InterfaceSection where
  text := "[Interface]\nListenPort = 51820\n".toList
  noComment := by decide +kernel
  noPeer := by decide +kernel

/-- Instead of an empty list the daemon reports a failure. -/
theorem noPeersYet_fails :
    ¬ ListsPeers (fun _ => "[]") noPeersYet [] := by
  unfold ListsPeers
  decide +kernel

end WireGuard

end AutomateLinux
