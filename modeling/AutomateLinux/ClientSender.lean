import AutomateLinux.CommandRegistry
import AutomateLinux.NumberText
import Mathlib.Data.List.Induction

/-!
# The command-line client

`parse_client_args` turns the words of a command line into the JSON object that
is sent to the daemon.  An option takes the word behind it as its value and
keeps it as a number when the word is one from end to end, as a string
otherwise; a bare word is allowed for `simulateInput` only and stays a string.
A later option of the same key replaces an earlier one.
-/

namespace AutomateLinux

namespace ClientSender

def COMMAND_SIMULATE_INPUT : String := "simulateInput"

def COMMAND_ARG_KEY : String := "key"

/-- The members of an object in the order of their first assignment. -/
abbrev Members := List (String × Json)

/-- `j[key] = value`. -/
def assign (key : String) (value : Json) : Members → Members
  | [] => [(key, value)]
  | (key', value') :: rest =>
      if key = key' then (key', value) :: rest
      else (key', value') :: assign key value rest

/-- What follows the two dashes of an option. -/
def optionKey? (word : String) : Option String :=
  match word.toList with
  | '-' :: '-' :: key => some (String.ofList key)
  | _ => none

/-- The member an option stores: the type is guessed from the text. -/
def optionValue (val : String) : Json :=
  match stoll val with
  | .ok (num, pos) =>
      if pos = val.length then .number_integer num else .string val
  | .error _ => .string val

/-- The loop over the words behind the command; an error ends it. -/
def parseArguments (commandName : String) :
    List String → Members → Except Members Members
  | [], j => .ok j
  | arg_key_str :: rest, j =>
      match optionKey? arg_key_str with
      | some key =>
          match rest with
          | val :: rest =>
              parseArguments commandName rest (assign key (optionValue val) j)
          | [] => .error (assign "error" (.string "Missing argument value.") j)
      | none =>
          if commandName = COMMAND_SIMULATE_INPUT then
            parseArguments commandName rest
              (assign COMMAND_ARG_KEY (.string arg_key_str) j)
          else .error (assign "error" (.string "Invalid argument format.") j)

/-- The words start with the command. -/
def parse_client_args : List String → Json
  | [] => .object [("error", .string "No command provided.")]
  | commandName :: args =>
      let j : Members := [(COMMAND_KEY, .string commandName)]
      match COMMAND_REGISTRY.find? fun row => row.name = commandName with
      | none => .object (assign "error" (.string "Unknown command.") j)
      | some foundCommand =>
          if args.head? = some "--help" ∨ args.head? = some "-h" then
            .object (assign "_help_shown" (.boolean true) j)
          else
            match parseArguments commandName args j with
            | .error j => .object j
            | .ok j =>
                match foundCommand.requiredArgs.find?
                    fun arg => !(Json.object j).contains arg with
                | some _ =>
                    .object (assign "error"
                      (.string "Missing required argument.") j)
                | none => .object j

/-- `main` sends the object unless it tells of an error or of the help text. -/
def sent (j : Json) : Bool := !j.contains "error" && !j.contains "_help_shown"

/-- An argument as it stands on the command line. -/
inductive Arg
  | option (key value : String)
  | positional (word : String) (hword : optionKey? word = none)

namespace Arg

def words : Arg → List String
  | option key value => ["--" ++ key, value]
  | positional word _ => [word]

def key : Arg → String
  | option key _ => key
  | positional _ _ => COMMAND_ARG_KEY

def value : Arg → String
  | option _ value => value
  | positional word _ => word

def isPositional : Arg → Bool
  | option _ _ => false
  | positional _ _ => true

/-- The member the argument becomes. -/
def stored : Arg → Json
  | option _ value => optionValue value
  | positional word _ => .string word

end Arg

def commandLine (commandName : String) (args : List Arg) : List String :=
  commandName :: args.flatMap Arg.words

/-- The argument a line gives for a key: the last one counts. -/
def given (args : List Arg) (key : String) : Option Arg :=
  args.reverse.find? fun arg => arg.key = key

def assignArgs (args : List Arg) (j : Members) : Members :=
  args.foldl (fun j arg => assign arg.key arg.stored j) j

theorem lookup_member (key key' : String) (value : Json) (j : Members) :
    List.lookup key' ((key, value) :: j) =
      if key' = key then some value else j.lookup key' := by
  rw [List.lookup_cons]
  by_cases hkey : key' = key
  · simp [hkey]
  · have hbeq : (key' == key) = false := by simpa using hkey
    simp [hkey, hbeq]

theorem lookup_assign (key key' : String) (value : Json) (j : Members) :
    (assign key value j).lookup key' =
      if key' = key then some value else j.lookup key' := by
  induction j with
  | nil => rw [assign, lookup_member]
  | cons member rest ih =>
      obtain ⟨key'', value''⟩ := member
      unfold assign
      by_cases hmember : key = key''
      · subst hmember
        rw [if_pos rfl, lookup_member, lookup_member]
        by_cases hkey : key' = key
        · simp [hkey]
        · simp [hkey]
      · rw [if_neg hmember, lookup_member, lookup_member, ih]
        by_cases hkey : key' = key
        · simp [hkey, hmember]
        · simp [hkey]

@[simp] theorem optionKey?_append (key : String) :
    optionKey? ("--" ++ key) = some key := by
  have htext : ("--" ++ key).toList = '-' :: '-' :: key.toList := by
    rw [String.toList_append]
    rfl
  simp [optionKey?, htext]

theorem eq_append_of_optionKey? {word key : String}
    (hkey : optionKey? word = some key) : word = "--" ++ key := by
  unfold optionKey? at hkey
  split at hkey
  · rename_i rest htext
    obtain rfl := Option.some.inj hkey
    apply String.toList_injective
    rw [htext, String.toList_append, String.toList_ofList]
    simp
  · contradiction

theorem not_sent_of_error (value : Json) (j : Members) :
    sent (.object (assign "error" value j)) = false := by
  simp [sent, Json.contains, Json.find?, lookup_assign]

theorem not_sent_of_help (value : Json) (j : Members) :
    sent (.object (assign "_help_shown" value j)) = false := by
  simp [sent, Json.contains, Json.find?, lookup_assign]

theorem lookup_assignArgs (args : List Arg) (j : Members) (key : String) :
    (assignArgs args j).lookup key =
      ((given args key).map Arg.stored).or (j.lookup key) := by
  induction args using List.reverseRec with
  | nil => simp [assignArgs, given]
  | append_singleton args arg ih =>
      have hsplit : assignArgs (args ++ [arg]) j =
          assign arg.key arg.stored (assignArgs args j) := by
        simp [assignArgs]
      rw [hsplit, lookup_assign, ih]
      by_cases hkey : key = arg.key
      · simp [given, hkey]
      · simp [given, hkey, Ne.symm hkey]

theorem assignArgs_cons (arg : Arg) (args : List Arg) (j : Members) :
    assignArgs (arg :: args) j =
      assignArgs args (assign arg.key arg.stored j) := rfl

theorem not_sent_of_parseArguments {commandName : String} {words : List String}
    {j j' : Members} (hparse : parseArguments commandName words j = .error j') :
    sent (.object j') = false := by
  fun_induction parseArguments commandName words j with
  | case1 => contradiction
  | case2 _ _ _ _ _ _ ih => exact ih hparse
  | case3 =>
      obtain rfl := Except.error.inj hparse
      exact not_sent_of_error _ _
  | case4 _ _ _ _ _ ih => exact ih hparse
  | case5 =>
      obtain rfl := Except.error.inj hparse
      exact not_sent_of_error _ _

theorem parseArguments_words {commandName : String} {args : List Arg}
    {j j' : Members}
    (hparse : parseArguments commandName (args.flatMap Arg.words) j = .ok j') :
    j' = assignArgs args j := by
  induction args generalizing j with
  | nil => exact (Except.ok.inj hparse).symm
  | cons arg args ih =>
      rw [assignArgs_cons]
      apply ih
      rw [List.flatMap_cons] at hparse
      cases arg with
      | option key value =>
          simpa [Arg.words, Arg.key, Arg.stored, parseArguments] using hparse
      | positional word hword =>
          by_cases hsimulate : commandName = COMMAND_SIMULATE_INPUT
          · simpa [Arg.words, Arg.key, Arg.stored, parseArguments, hword,
              hsimulate] using hparse
          · simp [Arg.words, parseArguments, hword, hsimulate] at hparse

theorem exists_args_of_parseArguments {commandName : String}
    {words : List String} {j j' : Members}
    (hparse : parseArguments commandName words j = .ok j') :
    ∃ args : List Arg, words = args.flatMap Arg.words := by
  fun_induction parseArguments commandName words j with
  | case1 => exact ⟨[], rfl⟩
  | case2 _ arg_key_str key hkey val rest ih =>
      obtain ⟨args, hargs⟩ := ih hparse
      refine ⟨.option key val :: args, ?_⟩
      simp [Arg.words, hargs, eq_append_of_optionKey? hkey]
  | case3 => contradiction
  | case4 arg_key_str rest _ hword _ ih =>
      obtain ⟨args, hargs⟩ := ih hparse
      exact ⟨.positional arg_key_str hword :: args, by simp [Arg.words, hargs]⟩
  | case5 => contradiction

/-- An object that is sent is what the loop over the words leaves. -/
theorem parse_client_args_of_sent {commandName : String} {words : List String}
    (hsent : sent (parse_client_args (commandName :: words)) = true) :
    ∃ j, parse_client_args (commandName :: words) = .object j ∧
      parseArguments commandName words [(COMMAND_KEY, .string commandName)] =
        .ok j := by
  revert hsent
  simp only [parse_client_args]
  split
  · rw [not_sent_of_error]
    simp
  · split
    · rw [not_sent_of_help]
      simp
    · cases hparse : parseArguments commandName words
          [(COMMAND_KEY, .string commandName)] with
      | error j =>
          dsimp only
          rw [not_sent_of_parseArguments hparse]
          simp
      | ok j =>
          dsimp only
          split
          · rw [not_sent_of_error]
            simp
          · exact fun _ => ⟨j, rfl, rfl⟩

theorem parse_client_args_commandLine {commandName : String} {args : List Arg}
    (hsent : sent (parse_client_args (commandLine commandName args)) = true) :
    parse_client_args (commandLine commandName args) =
      .object (assignArgs args [(COMMAND_KEY, .string commandName)]) := by
  obtain ⟨j, hj, hparse⟩ := parse_client_args_of_sent hsent
  rw [commandLine, hj, parseArguments_words hparse]

/-- Every command line whose object is sent is a command with arguments. -/
theorem exists_commandLine_of_sent {argv : List String}
    (hsent : sent (parse_client_args argv) = true) :
    ∃ commandName args, argv = commandLine commandName args := by
  cases argv with
  | nil => simp [parse_client_args, sent, Json.contains, Json.find?, lookup_member] at hsent
  | cons commandName words =>
      obtain ⟨j, -, hparse⟩ := parse_client_args_of_sent hsent
      obtain ⟨args, hargs⟩ := exists_args_of_parseArguments hparse
      exact ⟨commandName, args, by rw [commandLine, hargs]⟩

end ClientSender

end AutomateLinux
