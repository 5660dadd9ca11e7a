import Pullbackup.Library.Numerals
import Pullbackup.Library.Text

/- Argument vectors. How a program reads its own is a parameter: what is relied on is a grammar,
   which its documentation gives, of the words that a caller writes. -/
namespace Argv
open Numerals

/-- What a program takes a word for, or two of them. -/
inductive Item where
  | switch (word : String)
  | value (name text : String)
  | operand (word : String)
  deriving DecidableEq, Repr

/-- How a program divides its arguments into options, values and operands, none where it cannot.
    What it then makes of a value is not seen here. -/
abbrev Reading := List String → Option (List Item)

def assign (name text : String) : String := name ++ "=" ++ text

def flag (on : Bool) (word : String) : List String := if on then [word] else []

/-- The words that a caller writes: switches, names with a value that fits in the same word,
    names that take the next word, and operands, which are known by how they start. -/
structure Grammar where
  switches : List String
  values : List (String × (String → Prop))
  separate : List String
  starts : Char → Bool

def Grammar.Operand (g : Grammar) (word : String) : Prop :=
  ∃ c ∈ word.toList.head?, g.starts c = true

/-- A program takes each of these words for what it is, and goes on with the next. -/
structure Grammar.Documents (g : Grammar) (read : Reading) : Prop where
  nothing : read [] = some []
  switch : ∀ word ∈ g.switches, ∀ rest,
    read (word :: rest) = (read rest).map (.switch word :: ·)
  value : ∀ name ∈ g.values, ∀ text, name.2 text → ∀ rest,
    read (assign name.1 text :: rest) = (read rest).map (.value name.1 text :: ·)
  separate : ∀ name ∈ g.separate, ∀ text rest,
    read (name :: text :: rest) = (read rest).map (.value name text :: ·)
  operand : ∀ word, g.Operand word → ∀ rest,
    read (word :: rest) = (read rest).map (.operand word :: ·)

/-- The words are complete by themselves: the program goes on behind them as it would begin. -/
def Reads (read : Reading) (ws : List String) (items : List Item) : Prop :=
  ∀ rest, read (ws ++ rest) = (read rest).map (items ++ ·)

def asked (on : Bool) (word : String) : List Item := if on then [.switch word] else []

def given (name : String) (texts : List String) : List Item := texts.map (.value name)

def switched (word : String) (items : List Item) : Bool := items.contains (.switch word)

def Item.textOf (name : String) : Item → Option String
  | .value other text => if other = name then some text else none
  | _ => none

def Item.word : Item → Option String
  | .operand word => some word
  | _ => none

def textsOf (name : String) (items : List Item) : List String := items.filterMap (Item.textOf name)

def operands (items : List Item) : List String := items.filterMap Item.word

section Reading
variable {g : Grammar} {read : Reading} {ws vs : List String} {items more : List Item}

theorem reads_nil : Reads read [] [] := by
  intro rest
  simp

theorem reads_append (first : Reads read ws items) (second : Reads read vs more) :
    Reads read (ws ++ vs) (items ++ more) := by
  intro rest
  rw [List.append_assoc, first, second, Option.map_map]
  refine congrArg (fun f => Option.map f _) (funext fun later => ?_)
  simp

theorem reads_all (documents : g.Documents read) (complete : Reads read ws items) :
    read ws = some items := by
  have alone := complete []
  rw [List.append_nil, documents.nothing] at alone
  simpa using alone

theorem reads_flag (documents : g.Documents read) {word : String} (listed : word ∈ g.switches)
    (on : Bool) : Reads read (flag on word) (asked on word) := by
  cases on with
  | false => exact reads_nil
  | true => exact fun rest => documents.switch word listed rest

theorem reads_values (documents : g.Documents read) {name : String × (String → Prop)}
    (listed : name ∈ g.values) {texts : List String} (fit : ∀ text ∈ texts, name.2 text) :
    Reads read (texts.map (assign name.1)) (given name.1 texts) := by
  induction texts with
  | nil => exact reads_nil
  | cons text texts ih =>
    have first : Reads read [assign name.1 text] [.value name.1 text] :=
      fun rest => documents.value name listed text (fit text List.mem_cons_self) rest
    exact reads_append first (ih fun later mem => fit later (List.mem_cons_of_mem _ mem))

theorem reads_separate (documents : g.Documents read) {name : String} (listed : name ∈ g.separate)
    (text : String) : Reads read [name, text] [.value name text] :=
  fun rest => documents.separate name listed text rest

theorem reads_operand (documents : g.Documents read) {word : String} (operand : g.Operand word) :
    Reads read [word] [.operand word] :=
  fun rest => documents.operand word operand rest

end Reading

section Items
variable (items more : List Item) (on : Bool) (word name other : String) (texts : List String)

@[simp] theorem switched_append :
    switched word (items ++ more) = (switched word items || switched word more) := by
  unfold switched
  rw [Bool.eq_iff_iff]
  simp

@[simp] theorem switched_asked : switched word (asked on other) = (on && decide (other = word)) := by
  cases on with
  | false => rfl
  | true =>
    unfold switched asked
    rw [Bool.eq_iff_iff]
    simp [eq_comm]

@[simp] theorem switched_given : switched word (given name texts) = false := by
  unfold switched given
  rw [Bool.eq_false_iff]
  simp

@[simp] theorem textsOf_append :
    textsOf name (items ++ more) = textsOf name items ++ textsOf name more :=
  List.filterMap_append

@[simp] theorem textsOf_asked : textsOf name (asked on word) = [] := by
  cases on <;> rfl

@[simp] theorem textsOf_given :
    textsOf name (given other texts) = if other = name then texts else [] := by
  unfold textsOf given
  rw [List.filterMap_map]
  split
  · rename_i same
    simp [Item.textOf, same]
  · rename_i apart
    simp [Function.comp_def, Item.textOf, apart]

@[simp] theorem operands_append : operands (items ++ more) = operands items ++ operands more :=
  List.filterMap_append

@[simp] theorem operands_asked : operands (asked on word) = [] := by
  cases on <;> rfl

@[simp] theorem operands_given : operands (given name texts) = [] := by
  unfold operands given
  rw [List.filterMap_map]
  simp [Function.comp_def, Item.word]

end Items

theorem assign_toList (name text : String) :
    (assign name text).toList = name.toList ++ '=' :: text.toList := by
  unfold assign
  rw [String.toList_append, String.toList_append]
  simp

/-- A word that a shell without quotes leaves whole. -/
def Plain (word : String) : Prop :=
  word ≠ "" ∧ ' ' ∉ word.toList ∧ '"' ∉ word.toList ∧ '\'' ∉ word.toList

/-- A program splits a command at its spaces, and knows the two quotes. -/
def SplitsAtSpaces (shell : String → List String) : Prop :=
  ∀ ws, (∀ w ∈ ws, Plain w) → shell (Text.join ' ' ws) = ws

theorem number_plain (n : Int) : Plain (toString n) := by
  have apart : ∀ c : Char, c.isDigit = false → c ≠ '-' → c ∉ (toString n).toList := by
    intro c odd other mem
    rcases number_character mem with digit | sign
    · rw [odd] at digit
      cases digit
    · exact other sign
  exact ⟨number_ne_empty n, apart _ (by decide) (by decide), apart _ (by decide) (by decide),
    apart _ (by decide) (by decide)⟩

/-- The words of a command without quotes. -/
def commandWords (command : String) : List String := (Text.split ' ' command).filter (· ≠ "")

theorem commandWords_splits : SplitsAtSpaces commandWords := by
  intro ws plain
  unfold commandWords
  cases ws with
  | nil => decide
  | cons w ws =>
    have alone : ∀ v ∈ w :: ws, (Text.split ' ' v).filter (· ≠ "") = [v] := by
      intro v mem
      obtain ⟨letters, clean⟩ := plain v mem
      unfold Text.split
      rw [List.splitOn_eq_singleton clean.1]
      simp [String.ofList_toList, letters]
    rw [Text.split_join (by simp), List.filter_flatMap, List.flatMap_congr alone]
    simp

/-- A reading that keeps to a grammar: what starts with a dash is an option, which takes the
    next word when it is one of those that do; after two dashes everything is an operand. -/
def readWords (separate : List String) : Reading
  | [] => some []
  | word :: rest =>
    if word = "--" then some (rest.map .operand)
    else if word ∈ separate then
      match rest with
      | [] => none
      | text :: rest => (readWords separate rest).map (.value word text :: ·)
    else if word.toList.head? = some '-' then
      match Text.partition '=' word with
      | (name, true, text) => (readWords separate rest).map (.value name text :: ·)
      | _ => (readWords separate rest).map (.switch word :: ·)
    else (readWords separate rest).map (.operand word :: ·)

/-- An option that is not two dashes and has no value in it. -/
def Dashed (word : String) : Prop :=
  word ≠ "--" ∧ word.toList.head? = some '-' ∧ '=' ∉ word.toList

theorem dashed_assign {name : String} (dashed : Dashed name) (text : String) :
    assign name text ≠ "--" ∧ (assign name text).toList.head? = some '-' ∧
      Text.partition '=' (assign name text) = (name, true, text) := by
  obtain ⟨-, dash, clean⟩ := dashed
  refine ⟨fun same => ?_, ?_, Text.partition_eq_found_iff.mpr ⟨assign_toList name text, clean⟩⟩
  · have sign : '=' ∈ (assign name text).toList := by
      rw [assign_toList]
      simp
    rw [same] at sign
    exact absurd sign (by decide)
  · rw [assign_toList, List.head?_append, dash]
    rfl

theorem readWords_documents {g : Grammar} {separate : List String}
    (own : ∀ word ∈ separate, Dashed word) (listed : ∀ word ∈ g.separate, word ∈ separate)
    (switches : ∀ word ∈ g.switches, Dashed word ∧ word ∉ separate)
    (values : ∀ name ∈ g.values, Dashed name.1) (starts : g.starts '-' = false) :
    g.Documents (readWords separate) where
  nothing := rfl
  switch word mem rest := by
    obtain ⟨⟨whole, dash, clean⟩, free⟩ := switches word mem
    have uncut : Text.partition '=' word = (word, false, "") := by
      unfold Text.partition
      rw [List.dropWhile_eq_nil_iff.mpr fun c letter => ?_]
      exact decide_eq_true fun same => clean (same ▸ letter)
    cases rest <;> simp [readWords, whole, free, dash, uncut]
  value name mem text fits rest := by
    obtain ⟨whole, dash, cut⟩ := dashed_assign (values name mem) text
    have free : assign name.1 text ∉ separate := fun taken =>
      (own _ taken).2.2 (by rw [assign_toList]; simp)
    cases rest <;> simp [readWords, whole, free, dash, cut]
  separate name mem text rest := by
    simp [readWords, (own name (listed name mem)).1, listed name mem]
  operand word operand rest := by
    obtain ⟨c, first, begins⟩ := operand
    have apart : word.toList.head? ≠ some '-' := by
      intro dash
      rw [dash] at first
      obtain rfl := Option.mem_some_iff.mp first
      rw [starts] at begins
      cases begins
    have whole : word ≠ "--" := fun same => apart (by rw [same]; decide)
    have free : word ∉ separate := fun taken => apart (own word taken).2.1
    cases rest <;> simp [readWords, whole, free, apart]

end Argv
