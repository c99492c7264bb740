import LuaHost.CommandLine.Options

/-!
# The grammar of the command line

A command line is a row of options and then what they are followed by: nothing, a dash with the
arguments of the standard input, a script with its arguments, or two dashes with or without a script.
The module says what such a line asks for, and that `Options.parse` reads exactly these lines, names
what keeps any other line from being one, and looks at no place outside the words.
-/

namespace LuaHost.CommandLine

/-!
# Lines
-/

/-- An option that is followed by further options. -/
inductive Item where
  | statement (text : String)
  | interactive
  | version
  | ignoreEnvironment
  | warnings
deriving DecidableEq

def Item.words : Item -> List String
  | .statement text => ["-e", text]
  | .interactive => ["-i"]
  | .version => ["-v"]
  | .ignoreEnvironment => ["-E"]
  | .warnings => ["-W"]

def Item.statement? : Item -> Option String
  | .statement text => some text
  | _ => none

/-- What stands behind the options.  Only behind two dashes may a script be written as an option. -/
inductive Ending where
  | nothing
  | input (arguments : List String)
  | script (name : String) (plain : Options.isOption name = false) (arguments : List String)
  | dashes
  | dashesScript (name : String) (arguments : List String)

namespace Ending

def words : Ending -> List String
  | .nothing => []
  | .input arguments => "-" :: arguments
  | .script name _ arguments => name :: arguments
  | .dashes => ["--"]
  | .dashesScript name arguments => "--" :: name :: arguments

def script? : Ending -> Option String
  | .script name _ _ => some name
  | .dashesScript name _ => some name
  | _ => none

def arguments : Ending -> List String
  | .input arguments => arguments
  | .script _ _ arguments => arguments
  | .dashesScript _ arguments => arguments
  | _ => []

def isInput : Ending -> Bool
  | .input _ => true
  | _ => false

end Ending

/-- The words of a line. -/
def spelled (items : List Item) (ending : Ending) : List String :=
  items.flatMap Item.words ++ ending.words

/-- What a line asks for. -/
def asked (items : List Item) (ending : Ending) : Options where
  statements := items.filterMap Item.statement?
  interactive := decide (Item.interactive ∈ items)
  showVersion := decide (Item.version ∈ items \/ Item.interactive ∈ items)
  script := ending.script?
  arguments := ending.arguments
  readInput := ending.isInput
  ignoreEnvironment := decide (Item.ignoreEnvironment ∈ items)
  warnings := decide (Item.warnings ∈ items)

/-- The words with a meaning of their own among those that are written as options. -/
def optionWords : List String := ["-e", "-i", "-v", "-E", "-W", "--", "-"]

/-- Words that cannot follow a row of options, with the message that says so. -/
inductive Refused : List String -> String -> Prop where
  | missing : Refused ["-e"] "'-e' needs argument"
  | unknown {word : String} (rest : List String) (written : Options.isOption word = true)
      (other : word ∉ optionWords) :
      Refused (word :: rest) ("unrecognized option '" ++ word ++ "'")

/-!
# Reading a row of options
-/

namespace Options

/-- What an option adds to what the words before it have asked for. -/
def add (o : Options) : Item -> Options
  | .statement text => { o with statements := o.statements ++ [text] }
  | .interactive => { o with interactive := true, showVersion := true }
  | .version => { o with showVersion := true }
  | .ignoreEnvironment => { o with ignoreEnvironment := true }
  | .warnings => { o with warnings := true }

def finish (o : Options) : Ending -> Options
  | .nothing => o
  | .input arguments => o.withInput arguments
  | .script name _ arguments => o.withScript (name :: arguments)
  | .dashes => o
  | .dashesScript name arguments => o.withScript (name :: arguments)

theorem parseFrom_item (o : Options) (item : Item) (rest : List String) :
    parseFrom o (item.words ++ rest) = parseFrom (o.add item) rest := by
  cases item <;> rfl

theorem parseFrom_items (items : List Item) (o : Options) (rest : List String) :
    parseFrom o (items.flatMap Item.words ++ rest) = parseFrom (items.foldl add o) rest := by
  induction items generalizing o with
  | nil => rfl
  | cons item items ih =>
      simp only [List.flatMap_cons, List.append_assoc, List.foldl_cons]
      rw [parseFrom_item, ih]

/-- A word that has no meaning of its own is a script, or an option nobody knows. -/
theorem parseFrom_other (o : Options) {word : String} (rest : List String)
    (hother : word ∉ optionWords) :
    parseFrom o (word :: rest) =
      if isOption word then .error (.unrecognized word) else .ok (o.withScript (word :: rest)) := by
  simp only [optionWords, List.mem_cons, List.not_mem_nil, or_false, not_or] at hother
  rcases hother with ⟨he, hi, hv, hE, hW, hdashes, hdash⟩
  rw [parseFrom] <;> simp_all

theorem not_mem_of_plain {word : String} (hplain : isOption word = false) :
    word ∉ optionWords := by
  intro hmem
  have hwritten : forall option, option ∈ optionWords -> isOption option = true := by decide
  simp [hwritten word hmem] at hplain

theorem parseFrom_ending (o : Options) (ending : Ending) :
    parseFrom o ending.words = .ok (o.finish ending) := by
  cases ending with
  | script name plain arguments =>
      simp [Ending.words, finish, parseFrom_other o arguments (not_mem_of_plain plain), plain]
  | _ => rfl

theorem parseFrom_refused (o : Options) {rest : List String} {message : String}
    (h : Refused rest message) :
    (parseFrom o rest).mapError OptionFault.message = .error message := by
  cases h with
  | missing => rfl
  | unknown rest written other =>
      rw [parseFrom_other o rest other, if_pos written]
      rfl

/-!
The options of a line leave their traces one by one; together they are the fields of `asked`.
-/

theorem foldl_add (items : List Item) (o : Options) :
    items.foldl add o =
      { o with
        statements := o.statements ++ items.filterMap Item.statement?
        interactive := o.interactive || decide (Item.interactive ∈ items)
        showVersion :=
          o.showVersion || decide (Item.version ∈ items \/ Item.interactive ∈ items)
        ignoreEnvironment := o.ignoreEnvironment || decide (Item.ignoreEnvironment ∈ items)
        warnings := o.warnings || decide (Item.warnings ∈ items) } := by
  induction items generalizing o with
  | nil => simp
  | cons item items ih =>
      rw [List.foldl_cons, ih]
      cases item <;> simp [add, Item.statement?, List.filterMap_cons]

theorem finish_foldl_add (items : List Item) (ending : Ending) :
    (items.foldl add {}).finish ending = asked items ending := by
  rw [foldl_add]
  cases ending <;>
    simp [finish, asked, withInput, withScript, Ending.script?, Ending.arguments, Ending.isInput]

end Options

/-!
# Taking a line apart
-/

/-- What may stand first: an option, the end of a line, or what is refused. -/
theorem first_words (words : List String) :
    (exists item rest, words = Item.words item ++ rest) \/ (exists ending, words = Ending.words ending) \/
      exists message, Refused words message := by
  cases words with
  | nil => exact .inr (.inl ⟨.nothing, rfl⟩)
  | cons word rest =>
      by_cases hmem : word ∈ optionWords
      · simp only [optionWords, List.mem_cons, List.not_mem_nil, or_false] at hmem
        rcases hmem with rfl | rfl | rfl | rfl | rfl | rfl | rfl
        · cases rest with
          | nil => exact .inr (.inr ⟨_, .missing⟩)
          | cons text rest => exact .inl ⟨.statement text, rest, rfl⟩
        · exact .inl ⟨.interactive, rest, rfl⟩
        · exact .inl ⟨.version, rest, rfl⟩
        · exact .inl ⟨.ignoreEnvironment, rest, rfl⟩
        · exact .inl ⟨.warnings, rest, rfl⟩
        · cases rest with
          | nil => exact .inr (.inl ⟨.dashes, rfl⟩)
          | cons name arguments => exact .inr (.inl ⟨.dashesScript name arguments, rfl⟩)
        · exact .inr (.inl ⟨.input rest, rfl⟩)
      · cases hwritten : Options.isOption word with
        | false => exact .inr (.inl ⟨.script word hwritten rest, rfl⟩)
        | true => exact .inr (.inr ⟨_, .unknown rest hwritten hmem⟩)

theorem Item.words_ne_nil (item : Item) : item.words ≠ [] := by
  cases item <;> simp [Item.words]

/-- Every row of words is a line, or a row of options before something that is refused. -/
theorem line_or_refused (words : List String) :
    (exists items ending, words = spelled items ending) \/
      exists (items : List Item) (rest : List String) (message : String),
        words = items.flatMap Item.words ++ rest /\ Refused rest message := by
  -- the induction is on the number of words, since an option may take two of them
  induction hlength : words.length using Nat.strongRecOn generalizing words with
  | _ n ih =>
      rcases first_words words with ⟨item, rest, rfl⟩ | ⟨ending, rfl⟩ | ⟨message, hrefused⟩
      · have hpos := List.length_pos_iff.mpr item.words_ne_nil
        have hless : rest.length < n := by
          rw [<- hlength, List.length_append]
          omega
        rcases ih rest.length hless rest rfl with
          ⟨items, ending, rfl⟩ | ⟨items, rest, message, rfl, hrefused⟩
        · exact .inl ⟨item :: items, ending, by simp [spelled]⟩
        · exact .inr ⟨item :: items, rest, message, by simp, hrefused⟩
      · exact .inl ⟨[], ending, rfl⟩
      · exact .inr ⟨[], words, message, rfl, hrefused⟩

theorem parse_spelled (items : List Item) (ending : Ending) :
    Options.parse (spelled items ending) = .ok (asked items ending) := by
  rw [Options.parse, spelled, Options.parseFrom_items, Options.parseFrom_ending,
    Options.finish_foldl_add]

theorem parse_refused (items : List Item) {rest : List String} {message : String}
    (h : Refused rest message) :
    (Options.parse (items.flatMap Item.words ++ rest)).mapError OptionFault.message =
      .error message := by
  rw [Options.parse, Options.parseFrom_items]
  exact Options.parseFrom_refused _ h

/-!
# Reading by places

The same reading, word by word at a place that moves on.  Every look at a place, and every row of
words taken from a place on, is checked against the words there are.
-/

/-- The words from a place on, where the place is one of theirs or right behind them. -/
def wordsFrom? (words : List String) (place : Nat) : Option (List String) :=
  if place <= words.length then some (words.drop place) else none

theorem wordsFrom?_next {words : List String} {place : Nat} (hplace : place < words.length) :
    wordsFrom? words (place + 1) = some (words.drop (place + 1)) :=
  if_pos hplace

namespace Options

/-- Reads on from a place; `ended` tells that two dashes have been met.  There is no answer when a
place outside the words is looked at. -/
def readAt (words : List String) (ended : Bool) (o : Options) (place : Nat) :
    Option (Except OptionFault Options) :=
  if place < words.length then do
    let word <- words[place]?
    if !ended && isOption word then
      match word with
      | "-e" =>
        if place + 1 < words.length then do
          let statement <- words[place + 1]?
          readAt words ended { o with statements := o.statements ++ [statement] } (place + 2)
        else return .error .missingStatement
      | "-i" => readAt words ended { o with interactive := true, showVersion := true } (place + 1)
      | "-v" => readAt words ended { o with showVersion := true } (place + 1)
      | "-E" => readAt words ended { o with ignoreEnvironment := true } (place + 1)
      | "-W" => readAt words ended { o with warnings := true } (place + 1)
      | "--" => readAt words true o (place + 1)
      | "-" => do
        let arguments <- wordsFrom? words (min (place + 1) words.length)
        return .ok (o.withInput arguments)
      | _ => return .error (.unrecognized word)
    else do
      let arguments <- wordsFrom? words (place + 1)
      return .ok { o with script := some word, arguments }
  else return .ok o
termination_by words.length - place

/-- Behind two dashes the next word is the script, whatever it is. -/
theorem readAt_ended (words : List String) (o : Options) (place : Nat) :
    readAt words true o place = some (.ok (o.withScript (words.drop place))) := by
  rw [readAt]
  by_cases hplace : place < words.length
  · rw [List.drop_eq_getElem_cons hplace]
    simp [hplace, wordsFrom?_next hplace, withScript]
  · have hdrop : words.drop place = [] := List.drop_eq_nil_of_le (Nat.le_of_not_lt hplace)
    simp [hplace, hdrop, withScript]

/-- Reading from a place on is reading the words that stand there, and there is always an answer. -/
theorem readAt_eq (words : List String) (o : Options) (place : Nat) :
    readAt words false o place = some (parseFrom o (words.drop place)) := by
  -- on the words that are left, and not one by one: a statement takes two of them
  induction hleft : words.length - place using Nat.strongRecOn generalizing o place with
  | _ left ih =>
      by_cases hplace : place < words.length
      · have hdrop := List.drop_eq_getElem_cons hplace
        have hnext : forall o, readAt words false o (place + 1) =
            some (parseFrom o (words.drop (place + 1))) :=
          fun o => ih _ (by omega) o (place + 1) rfl
        generalize hword : words[place] = word at hdrop
        rw [readAt, hdrop]
        simp only [hplace, if_true, List.getElem?_eq_getElem hplace, hword]
        by_cases hmem : word ∈ optionWords
        · simp only [optionWords, List.mem_cons, List.not_mem_nil, or_false] at hmem
          rcases hmem with rfl | rfl | rfl | rfl | rfl | rfl | rfl
          · by_cases hstatement : place + 1 < words.length
            · have hlater := ih _ (by omega)
                { o with statements := o.statements ++ [words[place + 1]] } (place + 2) rfl
              have hrest := List.drop_eq_getElem_cons hstatement
              generalize htext : words[place + 1] = text at hlater hrest
              rw [hrest, parseFrom, <- hlater]
              simp [hstatement, isOption, htext]
            · have hnone : words.drop (place + 1) = [] :=
                List.drop_eq_nil_of_le (Nat.le_of_not_lt hstatement)
              simp [hstatement, isOption, hnone, parseFrom]
          · exact hnext _
          · exact hnext _
          · exact hnext _
          · exact hnext _
          · exact readAt_ended words o (place + 1)
          · have hmin : min (place + 1) words.length = place + 1 := Nat.min_eq_left hplace
            simp [hmin, wordsFrom?_next hplace, isOption, parseFrom]
        · rw [parseFrom_other o _ hmem]
          simp only [optionWords, List.mem_cons, List.not_mem_nil, or_false, not_or] at hmem
          cases hwritten : isOption word with
          | true => simp [hwritten, hmem]
          | false => simp [hwritten, wordsFrom?_next hplace, withScript]
      · have hdrop : words.drop place = [] := List.drop_eq_nil_of_le (Nat.le_of_not_lt hplace)
        rw [readAt, hdrop]
        simp [hplace, parseFrom]

end Options

/-!
# Exactly the lines
-/

/-- The words after the program's name are read as `asked` says exactly when they are a line, and
refused with the message of what keeps them from being one otherwise; reading them by their places in
the whole vector always comes to the same answer. -/
theorem parse_exactly_lines (vector : List String) :
    (forall o : Options, Options.parse vector.tail = .ok o <->
      exists items ending, vector.tail = spelled items ending /\ o = asked items ending) /\
    (forall message : String,
      (Options.parse vector.tail).mapError OptionFault.message = .error message <->
        exists (items : List Item) (rest : List String),
          vector.tail = items.flatMap Item.words ++ rest /\ Refused rest message) /\
    Options.readAt vector false {} 1 = some (Options.parse vector.tail) := by
  -- every row of words is a line or is refused, and the reader answers differently to the two
  refine ⟨?_, ?_, ?_⟩
  · intro o
    constructor
    · intro hok
      rcases line_or_refused vector.tail with
        ⟨items, ending, hwords⟩ | ⟨items, rest, message, hwords, hrefused⟩
      · have hread := parse_spelled items ending
        rw [<- hwords, hok] at hread
        exact ⟨items, ending, hwords, Except.ok.inj hread⟩
      · have hread := parse_refused items hrefused
        rw [<- hwords, hok] at hread
        cases hread
    · rintro ⟨items, ending, hwords, rfl⟩
      rw [hwords]
      exact parse_spelled items ending
  · intro message
    constructor
    · intro herror
      rcases line_or_refused vector.tail with
        ⟨items, ending, hwords⟩ | ⟨items, rest, other, hwords, hrefused⟩
      · have hread := parse_spelled items ending
        rw [<- hwords] at hread
        rw [hread] at herror
        cases herror
      · have hread := parse_refused items hrefused
        rw [<- hwords, herror] at hread
        rw [Except.error.inj hread]
        exact ⟨items, rest, hwords, hrefused⟩
    · rintro ⟨items, rest, hwords, hrefused⟩
      rw [hwords]
      exact parse_refused items hrefused
  · rw [Options.readAt_eq, List.drop_one]
    rfl

example : Options.parse ["-e", "x=1", "script.lua", "a", "-v"] =
    .ok { statements := ["x=1"], script := some "script.lua", arguments := ["a", "-v"] } := rfl

end LuaHost.CommandLine
