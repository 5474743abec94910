import SheetLedger.Command
import SheetLedger.Program.Options
import SheetLedger.Proofs.Codec

/-!
# The command line is read back

A command line is some options and a command. The options are read one by one, each with its value,
so that a value may look like an option; a later value takes the place of an earlier one
(`Options.ofWordsAfter_words`). No name of a command looks like an option, and so all words from
there on are the command's, whatever they are (`Options.ofWords_flatMap`).

A command has a fixed number of words, which hold its texts as they are, a code of its slot and a
numeral of its version (`Command.WrittenBy`). Exactly such words are read
(`Command.ofWords_eq_ok_iff`). Those that are printed are among them if words of 64 bits hold the
numbers of the command (`Command.Codable`), and they do for every command that has been read.
-/

namespace SheetLedger

open Numeral

/-! ## Options -/

/-- An option in front of a command. -/
inductive GivenOption where
  | noConfiguration
  | configuration (path : String)
  | database (path : String)
deriving Repr, DecidableEq

namespace GivenOption

/-- The words of an option. -/
def words : GivenOption → List String
  | noConfiguration => ["--no-config"]
  | configuration path => ["--config", path]
  | database path => ["--db", path]

/-- The configuration file that an option names. -/
def configuration? : GivenOption → Option String
  | configuration path => some path
  | _ => none

/-- The database that an option names. -/
def database? : GivenOption → Option String
  | database path => some path
  | _ => none

end GivenOption

namespace Options

/-- What some options say in front of a command. The last file of each kind counts, and the option
without a value counts wherever it stands. -/
def ofGiven (given : List GivenOption) (command : List String) : Options where
  configuration := (given.filterMap (·.configuration?)).getLast?
  noConfiguration := .noConfiguration ∈ given
  database := (given.filterMap (·.database?)).getLast?
  command := command

/-- One more option is read with its value, whatever that is. -/
theorem ofWordsAfter_words (given : List GivenOption) (option : GivenOption)
    (rest : List String) :
    ofWordsAfter (ofGiven given []) (option.words ++ rest) =
      ofWordsAfter (ofGiven (given ++ [option]) []) rest := by
  cases option <;>
    simp [GivenOption.words, ofWordsAfter, ofGiven, GivenOption.configuration?,
      GivenOption.database?]

theorem ofWordsAfter_flatMap (given more : List GivenOption) (rest : List String) :
    ofWordsAfter (ofGiven given []) (more.flatMap GivenOption.words ++ rest) =
      ofWordsAfter (ofGiven (given ++ more) []) rest := by
  induction more generalizing given with
  | nil => rw [List.append_nil, List.flatMap_nil, List.nil_append]
  | cons option more ih =>
    rw [List.flatMap_cons, List.append_assoc, ofWordsAfter_words, ih, List.append_assoc]
    rfl

/-- From a word without a leading minus on, all words are the command's. -/
theorem ofWordsAfter_command (options : Options) {name : String}
    (h : name.startsWith "-" = false) (rest : List String) :
    ofWordsAfter options (name :: rest) = .ok { options with command := name :: rest } := by
  have hne : ∀ option : String, option.startsWith "-" = true → name ≠ option := by
    rintro option hoption rfl
    rw [h] at hoption
    cases hoption
  have hconfiguration := hne "--config" (by simp)
  have hdatabase := hne "--db" (by simp)
  -- the last case of the reader, which the name reaches because it is none of the options
  rw [ofWordsAfter, h]
  · rfl
  · exact hne "-h" (by simp)
  · exact hne "--help" (by simp)
  · exact hne "--no-config" (by simp)
  · exact fun hname _ => hconfiguration hname
  · exact fun _ _ hname _ => hconfiguration hname
  · exact fun hname _ => hdatabase hname
  · exact fun _ _ hname _ => hdatabase hname

/-- The options and the words of a command are told apart by the name of the command. -/
theorem ofWords_flatMap (given : List GivenOption) {name : String}
    (h : name.startsWith "-" = false) (rest : List String) :
    ofWords (given.flatMap GivenOption.words ++ name :: rest) =
      .ok (ofGiven given (name :: rest)) := by
  have hgiven := ofWordsAfter_flatMap [] given (name :: rest)
  rw [List.nil_append, ofWordsAfter_command _ h] at hgiven
  rw [ofWords]
  show (ofWordsAfter (ofGiven [] []) _ >>= _) = _
  rw [hgiven]
  rfl

end Options

/-! ## Commands -/

namespace Command

/-- The words that write a command. -/
inductive WrittenBy : Command → List String → Prop where
  | set {sheet code raw : String} {slot : Slot} : Slot.ofCode code = .ok slot →
    WrittenBy (.set sheet slot raw) ["set", sheet, code, raw]
  | get {sheet code : String} {slot : Slot} : Slot.ofCode code = .ok slot →
    WrittenBy (.get sheet slot) ["get", sheet, code]
  | snapshot {sheet : String} : WrittenBy (.snapshot sheet) ["snapshot", sheet]
  | history {sheet code : String} {slot : Slot} : Slot.ofCode code = .ok slot →
    WrittenBy (.history sheet slot) ["history", sheet, code]
  | versions {sheet : String} : WrittenBy (.versions sheet) ["versions", sheet]
  | revert {sheet text : String} {version : Nat} : unsigned? text.toList = some version →
    WrittenBy (.revert sheet version) ["revert", sheet, text]

/-- Words of 64 bits hold the numbers of a command, those of its slot counted from one. -/
def Codable : Command → Prop
  | set _ slot _ | get _ slot | history _ slot => slot.column < wordMax ∧ slot.row < wordMax
  | snapshot _ | versions _ => True
  | revert _ version => version ≤ wordMax

theorem slotOf_eq_ok_iff {code : String} {slot : Slot} :
    slotOf code = .ok slot ↔ Slot.ofCode code = .ok slot := by
  unfold slotOf
  cases Slot.ofCode code <;> simp [Except.mapError]

theorem versionOf_eq_ok_iff {text : String} {version : Nat} :
    versionOf text = .ok version ↔ unsigned? text.toList = some version := by
  unfold versionOf
  cases unsigned? text.toList <;> simp

/-- What is made of a word that has to be read first. -/
theorem map_eq_ok_iff {α β ε : Type} {f : α → β} {read : Except ε α} {result : β} :
    (do return f (← read)) = Except.ok result ↔ ∃ value, read = .ok value ∧ f value = result := by
  cases read <;> simp [bind, Except.bind, pure, Except.pure]

/-- Exactly the words that write a command are read as it. -/
theorem ofWords_eq_ok_iff {words : List String} {command : Command} :
    ofWords words = .ok command ↔ command.WrittenBy words := by
  constructor
  · intro h
    unfold ofWords at h
    split at h
    · cases h
    · split at h
      · rcases map_eq_ok_iff.1 h with ⟨slot, hslot, rfl⟩
        exact .set (slotOf_eq_ok_iff.1 hslot)
      · cases h
    · split at h
      · rcases map_eq_ok_iff.1 h with ⟨slot, hslot, rfl⟩
        exact .get (slotOf_eq_ok_iff.1 hslot)
      · cases h
    · split at h
      · cases h
        exact .snapshot
      · cases h
    · split at h
      · rcases map_eq_ok_iff.1 h with ⟨slot, hslot, rfl⟩
        exact .history (slotOf_eq_ok_iff.1 hslot)
      · cases h
    · split at h
      · cases h
        exact .versions
      · cases h
    · split at h
      · rcases map_eq_ok_iff.1 h with ⟨version, hversion, rfl⟩
        exact .revert (versionOf_eq_ok_iff.1 hversion)
      · cases h
    · cases h
  · intro h
    cases h with
    | set hcode => exact map_eq_ok_iff.2 ⟨_, slotOf_eq_ok_iff.2 hcode, rfl⟩
    | get hcode => exact map_eq_ok_iff.2 ⟨_, slotOf_eq_ok_iff.2 hcode, rfl⟩
    | snapshot => rfl
    | history hcode => exact map_eq_ok_iff.2 ⟨_, slotOf_eq_ok_iff.2 hcode, rfl⟩
    | versions => rfl
    | revert htext => exact map_eq_ok_iff.2 ⟨_, versionOf_eq_ok_iff.2 htext, rfl⟩

/-- What is printed for a command is among the words that write it. -/
theorem writtenBy_words {command : Command} (h : command.Codable) :
    command.WrittenBy command.words := by
  cases command with
  | set sheet slot raw => exact .set (Slot.ofCode_code h.1 h.2)
  | get sheet slot => exact .get (Slot.ofCode_code h.1 h.2)
  | snapshot sheet => exact .snapshot
  | history sheet slot => exact .history (Slot.ofCode_code h.1 h.2)
  | versions sheet => exact .versions
  | revert sheet version =>
    refine .revert ?_
    rw [Nat.toString_eq_repr, Nat.toList_repr]
    exact unsigned?_toDigits h

/-- No numbers are read that words of 64 bits do not hold. -/
theorem WrittenBy.codable {command : Command} {words : List String}
    (h : command.WrittenBy words) : command.Codable := by
  cases h with
  | set hcode | get hcode | history hcode => exact Slot.lt_wordMax_of_ofCode hcode
  | snapshot | versions => trivial
  | revert htext => exact le_wordMax_of_unsigned? htext

/-- No name of a command looks like an option. -/
theorem exists_words_eq (command : Command) :
    ∃ name rest, command.words = name :: rest ∧ name.startsWith "-" = false := by
  cases command <;> exact ⟨_, _, rfl, by simp⟩

end Command

/-! ## The command line -/

/-- Options and the words of a command are told apart, the words of a command are read as that
command, and a command that is read from any words is read from its own. -/
theorem commandLine_readsBack :
    (∀ (given : List GivenOption) (command : Command),
      Options.ofWords (given.flatMap GivenOption.words ++ command.words) =
        .ok (Options.ofGiven given command.words)) ∧
    (∀ command : Command, command.Codable → Command.ofWords command.words = .ok command) ∧
    ∀ words command, Command.ofWords words = .ok command →
      Command.ofWords command.words = .ok command := by
  have hread : ∀ {command : Command}, command.Codable →
      Command.ofWords command.words = .ok command := by
    intro command hcodable
    exact Command.ofWords_eq_ok_iff.2 (Command.writtenBy_words hcodable)
  refine ⟨?_, fun _ => hread, ?_⟩
  · intro given command
    rcases command.exists_words_eq with ⟨name, rest, hwords, hname⟩
    rw [hwords]
    exact Options.ofWords_flatMap given hname rest
  · intro words command h
    exact hread (Command.ofWords_eq_ok_iff.1 h).codable

/-- Options whose values look like options, in front of a command whose texts do. -/
theorem commandLine_readsBack_dashed :
    Options.ofWords (["--db", "-h", "--config", "--db", "--no-config", "--db", ""] ++
        (Command.set "" ⟨wordMax - 1, wordMax - 1⟩ "--config").words) =
      .ok ⟨some "--db", true, some "",
        ["set", "", Slot.code ⟨wordMax - 1, wordMax - 1⟩, "--config"]⟩ ∧
    Command.ofWords ["set", "", Slot.code ⟨wordMax - 1, wordMax - 1⟩, "--config"] =
      .ok (.set "" ⟨wordMax - 1, wordMax - 1⟩ "--config") ∧
    Command.ofWords ["revert", "-1", "+007"] = .ok (.revert "-1" 7) ∧
    Command.ofWords ["revert", "-1", "7"] = .ok (.revert "-1" 7) := by
  rcases commandLine_readsBack with ⟨hoptions, hwords, hagain⟩
  have hrevert : Command.ofWords ["revert", "-1", "+007"] = .ok (.revert "-1" 7) := by decide
  refine ⟨?_, ?_, hrevert, ?_⟩
  · exact hoptions
      [.database "-h", .configuration "--db", .noConfiguration, .database ""]
      (.set "" ⟨wordMax - 1, wordMax - 1⟩ "--config")
  · exact hwords (.set "" ⟨wordMax - 1, wordMax - 1⟩ "--config") ⟨by decide, by decide⟩
  · exact hagain _ _ hrevert

end SheetLedger
