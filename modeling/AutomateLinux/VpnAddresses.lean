import AutomateLinux.LineEditing
import AutomateLinux.WireGuardPeers
import Mathlib.Data.List.DropRight
import Mathlib.Data.Nat.Find
import Mathlib.Order.Bounds.Basic

/-!
# The next address of the network

Unless it is given one, the setup script looks for an address that no peer has.  It has
the server print the addresses in use and counts up from 2 while `grep` finds the address
among them.  What it looks for is not anchored, so that an address is also found at the
beginning of a longer one; and what the server prints are the addresses that stand first
behind `AllowedIPs = `, written with these blanks.
-/

namespace AutomateLinux

namespace WireGuard

open CleanBetween (isLineFeed)
open LineEditing

/-! ## The setup script -/

def BASE_IP : Text := "10.0.0.".toList

/-- What the expression matches at the beginning of a text, behind its `\K`. -/
def allowedIp (text : Text) : Option Text :=
  if "AllowedIPs = ".toList ++ BASE_IP <+: text then
    let digits := (text.drop ("AllowedIPs = ".toList ++ BASE_IP).length).takeWhile Char.isDigit
    if digits = [] then none else some (BASE_IP ++ digits)
  else none

/-- `grep -o` on a line.  A match has no other one begin inside of it. -/
def allowedIps : Text → List Text
  | [] => []
  | c :: line => (allowedIp (c :: line)).toList ++ allowedIps line

/-- A command substitution drops the line breaks at the end. -/
def USED_IPS (config : Text) : Text :=
  (unlines ((fileLines config).flatMap allowedIps)).rdropWhile fun c => c = '\n'

/-- The condition of the loop. -/
def isFound (config : Text) (NEXT_IP : ℕ) : Bool :=
  (fileLines (USED_IPS config ++ ['\n'])).any (search '.' (BASE_IP ++ Nat.toDigits 10 NEXT_IP))

/-- The loop has no bound. -/
def nextIp (config : Text) : ℕ → ℕ → Option ℕ
  | 0, _ => none
  | fuel + 1, NEXT_IP =>
      if isFound config NEXT_IP then nextIp config fuel (NEXT_IP + 1) else some NEXT_IP

def address (octet : ℕ) : Text := BASE_IP ++ Nat.toDigits 10 octet

def Assigns (config VPN_IP : Text) : Prop :=
  ∃ fuel, (nextIp config fuel 2).map address = some VPN_IP

/-- The addresses that the server prints. -/
def printedIps (config : Text) : List Text := (fileLines config).flatMap allowedIps

/-- An address is found among those printed. -/
def finds (config : Text) (octet : ℕ) : Bool :=
  (printedIps config).any (search '.' (address octet))

/-! ## What it is meant to do -/

/-- The networks that a line allows.  Comments, blanks and the case of the key do not
count. -/
def allowedNetworks (line : Text) : List Text :=
  let cleaned := (line.takeWhile fun c => c ≠ '#').filter fun c => !isspace c
  if (cleaned.take 11).map Char.toLower = "allowedips=".toList then
    (cleaned.drop 11).splitOn ','
  else []

def number? (bound : ℕ) (text : Text) : Option ℕ :=
  (List.range bound).find? fun n => Nat.toDigits 10 n = text

/-- An address as a number of 32 bits. -/
def ipv4? (text : Text) : Option ℕ :=
  match (text.splitOn '.').map (number? 256) with
  | [some a, some b, some c, some d] => some (((a * 256 + b) * 256 + c) * 256 + d)
  | _ => none

/-- An address, and how many of its bits count. -/
def network? (text : Text) : Option (ℕ × ℕ) :=
  match text.splitOn '/' with
  | [ip] => (ipv4? ip).map fun ip => (ip, 32)
  | [ip, bits] => (ipv4? ip).bind fun ip => (number? 33 bits).map fun bits => (ip, bits)
  | _ => none

/-- `10.0.0.octet` is in the network. -/
def covers (octet : ℕ) (network : ℕ × ℕ) : Bool :=
  (10 * 256 * 256 * 256 + octet) / 2 ^ (32 - network.2) = network.1 / 2 ^ (32 - network.2)

/-- Some line allows the address. -/
def uses (config : Text) (octet : ℕ) : Bool :=
  (fileLines config).any fun line =>
    (allowedNetworks line).any fun text => (network? text).any (covers octet)

/-- The server's configuration file. -/
structure ServerConfig where
  text : Text
  noNul : '\x00' ∉ text

namespace ServerConfig

variable (config : ServerConfig)

def freeOctets : Set ℕ := {octet | 2 ≤ octet ∧ octet ≤ 254 ∧ uses config.text octet = false}

/-- The least free address is assigned, and none if none is free. -/
def AllocatesLeast : Prop :=
  (∀ octet, IsLeast config.freeOctets octet → Assigns config.text (address octet)) ∧
    (config.freeOctets = ∅ → ∀ VPN_IP, ¬ Assigns config.text VPN_IP)

end ServerConfig

/-! ## What `grep` prints -/

section

variable {text ip config : Text} {ips : List Text}

theorem not_isLineFeed_of_isDigit {c : Char} (hc : c.isDigit = true) : isLineFeed c = false := by
  rw [isLineFeed, decide_eq_false_iff_not]
  rintro rfl
  contradiction

theorem oneLine_allowedIp (hip : allowedIp text = some ip) :
    ip ≠ [] ∧ ∀ c ∈ ip, isLineFeed c = false := by
  unfold allowedIp at hip
  split at hip
  · dsimp only at hip
    split at hip
    · contradiction
    · obtain rfl := Option.some.inj hip
      refine ⟨List.cons_ne_nil _ _, fun c hc => ?_⟩
      rcases List.mem_append.mp hc with hbase | hdigits
      · have hall : (BASE_IP.all fun c => !isLineFeed c) = true := by decide
        simpa using List.all_eq_true.mp hall c hbase
      · exact not_isLineFeed_of_isDigit (List.mem_takeWhile_imp hdigits)
  · contradiction

theorem oneLine_allowedIps (hip : ip ∈ allowedIps text) :
    ip ≠ [] ∧ ∀ c ∈ ip, isLineFeed c = false := by
  induction text with
  | nil => contradiction
  | cons c text ih =>
      rcases List.mem_append.mp hip with hhere | hlater
      · exact oneLine_allowedIp (Option.mem_toList.mp hhere)
      · exact ih hlater

theorem oneLine_printedIps (hip : ip ∈ printedIps config) :
    ip ≠ [] ∧ ∀ c ∈ ip, isLineFeed c = false := by
  obtain ⟨line, -, hline⟩ := List.mem_flatMap.mp hip
  exact oneLine_allowedIps hline

/-- `echo` puts the last line break back, and prints an empty line for no address. -/
theorem fileLines_echo (hips : ∀ ip ∈ ips, ip ≠ [] ∧ ∀ c ∈ ip, isLineFeed c = false) :
    fileLines ((unlines ips).rdropWhile (fun c => c = '\n') ++ ['\n']) =
      if ips = [] then [[]] else ips := by
  rcases List.eq_nil_or_concat ips with rfl | ⟨front, ip, rfl⟩
  · rfl
  · obtain ⟨hne, hline⟩ := hips ip (by simp)
    have hunlines : unlines (front ++ [ip]) = (unlines front ++ ip) ++ ['\n'] := by
      simp [unlines]
    have hlast : (unlines front ++ ip).rdropWhile (fun c => c = '\n') = unlines front ++ ip := by
      rw [List.rdropWhile_eq_self_iff]
      intro hne'
      rw [List.getLast_append_of_ne_nil _ hne]
      intro hfeed
      have hc := hline _ (List.getLast_mem hne)
      rw [isLineFeed, hfeed] at hc
      contradiction
    rw [List.concat_eq_append, hunlines, List.rdropWhile_concat_pos _ _ _ (by simp), hlast,
      ← hunlines, fileLines_unlines fun ip hip => (hips ip (by simpa using hip)).2,
      if_neg (by simp)]

end

/-! ## What `grep` finds -/

section

variable {config : Text}

theorem isFound_eq_finds (config : Text) (octet : ℕ) :
    isFound config octet = finds config octet := by
  have hlines : fileLines (USED_IPS config ++ ['\n']) =
      if printedIps config = [] then [[]] else printedIps config :=
    fileLines_echo fun ip hip => oneLine_printedIps hip
  unfold isFound finds
  rw [hlines]
  split
  · rename_i hnone
    rw [hnone]
    rfl
  · rfl

/-- An address that is longer than all that are printed is not found. -/
theorem exists_not_finds (config : Text) : ∃ octet, 2 ≤ octet ∧ finds config octet = false := by
  obtain ⟨bound, hbound⟩ : ∃ bound, ∀ ip ∈ printedIps config, ip.length ≤ bound :=
    ⟨_, fun _ hip => (List.infix_of_mem_flatten hip).length_le⟩
  refine ⟨10 ^ (bound + 1), ?_, ?_⟩
  · calc 2 ≤ 10 ^ 1 := by decide
      _ ≤ 10 ^ (bound + 1) := Nat.pow_le_pow_right (by decide) (by omega)
  · have hlong : bound + 1 < (Nat.toDigits 10 (10 ^ (bound + 1))).length := by
      rw [← not_le, Nat.length_toDigits_le_iff (by decide) (by omega)]
      exact lt_irrefl _
    rw [finds, List.any_eq_false]
    intro ip hip
    have hshort := hbound ip hip
    rw [search_eq_false_of_length_lt]
    · exact Bool.false_ne_true
    · rw [address, List.length_append]
      omega

end

/-! ## What is assigned -/

section

variable {octet start : ℕ} {config VPN_IP : Text}

/-- The loop ends at the first number that is not found. -/
theorem exists_nextIp_iff :
    (∃ fuel, nextIp config fuel start = some octet) ↔
      start ≤ octet ∧ isFound config octet = false ∧
        ∀ between, start ≤ between → between < octet → isFound config between = true := by
  constructor
  · rintro ⟨fuel, hfuel⟩
    induction fuel generalizing start with
    | zero => contradiction
    | succ fuel ih =>
        rw [nextIp] at hfuel
        split at hfuel
        · rename_i hfound
          obtain ⟨hle, hfree, hbetween⟩ := ih hfuel
          refine ⟨by omega, hfree, fun between hstart hlt => ?_⟩
          rcases Nat.eq_or_lt_of_le hstart with rfl | hlater
          · exact hfound
          · exact hbetween between hlater hlt
        · rename_i hfound
          obtain rfl := Option.some.inj hfuel
          exact ⟨Nat.le_refl _, by simpa using hfound, fun _ _ _ => by omega⟩
  · rintro ⟨hle, hfree, hbetween⟩
    obtain ⟨distance, rfl⟩ := Nat.exists_eq_add_of_le hle
    refine ⟨distance + 1, ?_⟩
    induction distance generalizing start with
    | zero => rw [nextIp, if_neg (by simpa using hfree), Nat.add_zero]
    | succ distance ih =>
        have hstart := hbetween start (Nat.le_refl _) (by omega)
        have hrest : nextIp config (distance + 1) (start + 1) = some (start + 1 + distance) :=
          ih (by omega) (by rwa [show start + 1 + distance = start + (distance + 1) by omega])
            fun between hle hlt => hbetween between (by omega) (by omega)
        rw [nextIp, if_pos hstart, hrest]
        congr 1
        omega

theorem toDigits_injective : Function.Injective (Nat.toDigits 10) := by
  intro m n hsame
  rw [← Nat.ofDigitChars_ten_toDigits (n := m), hsame, Nat.ofDigitChars_ten_toDigits]

theorem address_injective : Function.Injective address := fun _ _ hsame =>
  toDigits_injective (List.append_cancel_left hsame)

theorem assigns_iff :
    Assigns config VPN_IP ↔
      ∃ octet, address octet = VPN_IP ∧ 2 ≤ octet ∧ isFound config octet = false ∧
        ∀ between, 2 ≤ between → between < octet → isFound config between = true := by
  unfold Assigns
  simp only [Option.map_eq_some_iff]
  constructor
  · rintro ⟨fuel, octet, hfuel, haddress⟩
    exact ⟨octet, haddress, exists_nextIp_iff.mp ⟨fuel, hfuel⟩⟩
  · rintro ⟨octet, haddress, hoctet⟩
    obtain ⟨fuel, hfuel⟩ := exists_nextIp_iff.mpr hoctet
    exact ⟨fuel, octet, hfuel, haddress⟩

theorem assigns_address_iff :
    Assigns config (address octet) ↔
      2 ≤ octet ∧ isFound config octet = false ∧
        ∀ between, 2 ≤ between → between < octet → isFound config between = true := by
  rw [assigns_iff]
  constructor
  · rintro ⟨octet', hsame, hoctet⟩
    rwa [← address_injective hsame]
  · exact fun hoctet => ⟨octet, rfl, hoctet⟩

/-- The script assigns an address also where none is free. -/
theorem exists_assigns (config : Text) : ∃ VPN_IP, Assigns config VPN_IP := by
  have hsome : ∃ octet, 2 ≤ octet ∧ isFound config octet = false := by
    obtain ⟨octet, hle, hfree⟩ := exists_not_finds config
    exact ⟨octet, hle, (isFound_eq_finds config octet).trans hfree⟩
  obtain ⟨hle, hfree⟩ := Nat.find_spec hsome
  refine ⟨address (Nat.find hsome), assigns_address_iff.mpr ⟨hle, hfree, ?_⟩⟩
  intro between hstart hlt
  by_contra hnot
  exact Nat.find_min hsome hlt ⟨hstart, by simpa using hnot⟩

/-- The least free address is assigned exactly if it is not found among the addresses that
are printed and each address below it is. -/
theorem allocatesLeast_iff (config : ServerConfig) :
    config.AllocatesLeast ↔
      ∃ octet, IsLeast config.freeOctets octet ∧ finds config.text octet = false ∧
        ∀ used, 2 ≤ used → used < octet → finds config.text used = true := by
  have hassigns : ∀ octet, octet ∈ config.freeOctets →
      (Assigns config.text (address octet) ↔ finds config.text octet = false ∧
        ∀ used, 2 ≤ used → used < octet → finds config.text used = true) := by
    intro octet hfree
    rw [assigns_address_iff, and_iff_right hfree.1]
    simp only [isFound_eq_finds]
  constructor
  · rintro ⟨hleast, hnone⟩
    have hsome : ∃ octet, octet ∈ config.freeOctets := by
      by_contra hempty
      obtain ⟨VPN_IP, hassigned⟩ := exists_assigns config.text
      exact hnone (Set.eq_empty_iff_forall_notMem.mpr (not_exists.mp hempty)) VPN_IP hassigned
    classical
    have hfind : IsLeast config.freeOctets (Nat.find hsome) :=
      ⟨Nat.find_spec hsome, fun _ hfree => Nat.find_min' hsome hfree⟩
    exact ⟨_, hfind, (hassigns _ hfind.1).mp (hleast _ hfind)⟩
  · rintro ⟨octet, hoctet, hfound⟩
    refine ⟨fun least hleast => ?_, fun hempty => ?_⟩
    · rw [hleast.unique hoctet]
      exact (hassigns octet hoctet.1).mpr hfound
    · rw [hempty] at hoctet
      exact absurd hoctet.1 (Set.notMem_empty _)

end

/-- The first free address is the beginning of the only one in use. -/
def twentyUsed : ServerConfig where
  text := "[Peer]\nAllowedIPs = 10.0.0.20/32\n".toList
  noNul := by decide

theorem twentyUsed_fails : ¬ twentyUsed.AllocatesLeast := by
  rintro ⟨hleast, -⟩
  have hfree : IsLeast twentyUsed.freeOctets 2 :=
    ⟨⟨by decide, by decide, by decide +kernel⟩, fun octet hoctet => hoctet.1⟩
  have hfound : isFound twentyUsed.text 2 = true := by decide +kernel
  have hassigns := assigns_address_iff.mp (hleast 2 hfree)
  rw [hassigns.2.1] at hfound
  contradiction

/-- An address that stands behind another one, and one without blanks before it. -/
def listed : ServerConfig where
  text := "[Peer]\nAllowedIPs = 10.0.0.2/32, 10.0.0.3/32\n[Peer]\nAllowedIPs=10.0.0.4/32\n".toList
  noNul := by decide

example : (uses listed.text 3, finds listed.text 3, uses listed.text 4, finds listed.text 4) =
    (true, false, true, false) := by decide +kernel

end WireGuard

end AutomateLinux
