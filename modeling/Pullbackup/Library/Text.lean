import Mathlib.Data.List.Basic
import Mathlib.Data.List.TakeWhile

/- Texts cut at a separator, joined by it and trimmed, as Python's str does it. -/
namespace Text

def isSpace (c : Char) : Bool :=
  let n := c.toNat
  (9 ≤ n && n ≤ 13) || (28 ≤ n && n ≤ 32) || n = 0x85 || n = 0xA0 || n = 0x1680 ||
    (0x2000 ≤ n && n ≤ 0x200A) || n = 0x2028 || n = 0x2029 || n = 0x202F || n = 0x205F ||
    n = 0x3000

def stripBy (p : Char → Bool) (s : String) : String :=
  String.ofList ((s.toList.dropWhile p).reverse.dropWhile p).reverse

def strip (s : String) : String := stripBy isSpace s

def split (sep : Char) (s : String) : List String := (s.toList.splitOn sep).map String.ofList

def join (sep : Char) (parts : List String) : String :=
  (String.singleton sep).intercalate parts

def pieces (sep : Char) (s : String) : List String := ((split sep s).map strip).filter (· ≠ "")

/-- What is before the first sep, whether there is one, and what is after it. -/
def partition (sep : Char) (s : String) : String × Bool × String :=
  match s.toList.dropWhile (· ≠ sep) with
  | [] => (s, false, "")
  | _ :: after => (String.ofList (s.toList.takeWhile (· ≠ sep)), true, String.ofList after)

/-- The characters str.splitlines ends a line at. -/
def lineBreak (c : Char) : Bool :=
  let n := c.toNat
  (10 ≤ n && n ≤ 13) || (28 ≤ n && n ≤ 30) || n = 0x85 || n = 0x2028 || n = 0x2029

def lines : List Char → List (List Char)
  | [] => []
  | '\r' :: '\n' :: rest => [] :: lines rest
  | c :: rest =>
    if lineBreak c then [] :: lines rest
    else
      match lines rest with
      | [] => [[c]]
      | first :: others => (c :: first) :: others

def splitLines (s : String) : List String := (lines s.toList).map String.ofList

section Lines

theorem lines_break (rest : List Char) : lines ('\n' :: rest) = [] :: lines rest := by
  have newline : lineBreak '\n' = true := by decide
  simp [lines, newline]

theorem lines_plain {c : Char} {rest first : List Char} {others : List (List Char)}
    (plain : lineBreak c = false) (later : lines rest = first :: others) :
    lines (c :: rest) = (c :: first) :: others := by
  have other : c ≠ '\r' := by
    rintro rfl
    exact absurd plain (by decide)
  unfold lines
  split
  · rename_i blank
    cases blank
  · rename_i blank
    cases blank
    exact absurd rfl other
  · rename_i same
    cases same
    rw [plain, if_neg Bool.false_ne_true, later]

theorem lines_append_break {line rest : List Char} (plain : ∀ c ∈ line, lineBreak c = false) :
    lines (line ++ '\n' :: rest) = line :: lines rest := by
  induction line with
  | nil => exact lines_break rest
  | cons c line ih =>
    have later := ih fun d mem => plain d (List.mem_cons_of_mem c mem)
    exact lines_plain (plain c List.mem_cons_self) later

theorem splitLines_print {names : List String}
    (plain : ∀ name ∈ names, ∀ c ∈ name.toList, lineBreak c = false) :
    splitLines (String.join (names.map (· ++ "\n"))) = names := by
  unfold splitLines
  induction names with
  | nil => rfl
  | cons name names ih =>
    rw [List.map_cons, String.join_cons, String.toList_append, String.toList_append,
      List.append_assoc]
    have newline : "\n".toList = ['\n'] := rfl
    rw [newline, List.singleton_append, lines_append_break (plain name List.mem_cons_self),
      List.map_cons, String.ofList_toList,
      ih fun other mem => plain other (List.mem_cons_of_mem name mem)]

end Lines

section Split
variable {sep : Char}

theorem split_append (s t : String) :
    split sep (s ++ String.singleton sep ++ t) = split sep s ++ split sep t := by
  unfold split
  rw [String.toList_append, String.toList_append, String.toList_singleton, List.append_assoc,
    List.singleton_append, List.splitOn_append_cons_self, List.map_append]

theorem split_join {parts : List String} (some : parts ≠ []) :
    split sep (join sep parts) = parts.flatMap (split sep) := by
  induction parts with
  | nil => exact absurd rfl some
  | cons part parts ih =>
    cases parts with
    | nil => simp [join]
    | cons next rest =>
      have later := ih (by simp)
      unfold join at later ⊢
      rw [String.intercalate_cons_cons, split_append, later]
      simp only [List.flatMap_cons]

theorem pieces_join (parts : List String) :
    pieces sep (join sep parts) = parts.flatMap (pieces sep) := by
  cases parts with
  | nil =>
    have blank : strip (String.ofList []) = "" := by decide
    simp [pieces, join, split, blank]
  | cons part parts =>
    unfold pieces
    rw [split_join (by simp)]
    simp only [List.map_flatMap, List.filter_flatMap]

theorem join_split (s : String) : join sep (split sep s) = s := by
  apply String.toList_injective
  unfold join split
  rw [String.toList_intercalate, String.toList_singleton, List.map_map]
  simp only [Function.comp_def, String.toList_ofList, List.map_id']
  exact List.intercalate_splitOn sep

theorem not_mem_of_mem_splitOn {s part : List Char} (cut : part ∈ s.splitOn sep) :
    sep ∉ part := by
  induction s generalizing part with
  | nil =>
    have blank : part = [] := by simpa using cut
    simp [blank]
  | cons c s ih =>
    rw [List.splitOn_cons_eq_if_modifyHead] at cut
    split at cut
    · obtain rfl | later := List.mem_cons.mp cut
      · simp
      · exact ih later
    · rename_i other
      cases parts : s.splitOn sep with
      | nil => exact absurd parts (List.splitOn_ne_nil sep s)
      | cons first rest =>
        rw [parts, List.modifyHead_cons] at cut
        obtain rfl | later := List.mem_cons.mp cut
        · have clean : sep ∉ first := ih (by simp [parts])
          intro mem
          obtain rfl | mem := List.mem_cons.mp mem
          · simp at other
          · exact clean mem
        · exact ih (by simp [parts, later])

theorem split_part {s part : String} (cut : part ∈ split sep s) : split sep part = [part] := by
  obtain ⟨letters, mem, rfl⟩ := List.mem_map.mp cut
  unfold split
  rw [String.toList_ofList, List.splitOn_eq_singleton (not_mem_of_mem_splitOn mem)]
  rfl

theorem split_join_parts {s : String} {parts : List String} (nonempty : parts ≠ [])
    (cut : ∀ part ∈ parts, part ∈ split sep s) : split sep (join sep parts) = parts := by
  rw [split_join nonempty]
  clear nonempty
  induction parts with
  | nil => rfl
  | cons part parts ih =>
    rw [List.flatMap_cons, split_part (cut part List.mem_cons_self),
      ih fun p mem => cut p (List.mem_cons_of_mem _ mem)]
    rfl

theorem split_injective : Function.Injective (split sep) := by
  intro s t same
  have whole : join sep (split sep s) = s := join_split s
  rw [← whole, same, join_split]

/-- The texts that go on with the separator are those with more parts. -/
theorem split_strict_prefix_iff {s t : String} : (split sep s <+: split sep t ∧ s ≠ t) ↔
    (s ++ String.singleton sep).toList <+: t.toList := by
  constructor
  · rintro ⟨⟨rest, whole⟩, apart⟩
    cases rest with
    | nil => exact absurd (split_injective (by simpa using whole)) apart
    | cons part rest =>
      have parts : split sep (s ++ String.singleton sep ++ join sep (part :: rest)) =
          split sep t := by
        rw [split_append, ← whole, split_join_parts (s := t) (by simp)]
        intro p mem
        rw [← whole]
        exact List.mem_append_right _ mem
      have text := split_injective parts
      rw [← text]
      simp only [String.toList_append, List.prefix_append]
  · rintro ⟨rest, whole⟩
    have text : t = s ++ String.singleton sep ++ String.ofList rest := by
      apply String.toList_injective
      rw [String.toList_append, String.toList_ofList, whole]
    constructor
    · rw [text, split_append]
      exact List.prefix_append _ _
    · intro same
      have lengths := congrArg (List.length ∘ String.toList) text
      simp [same] at lengths

theorem any_join {f : Char → Bool} (apart : f sep = false) (parts : List String) :
    (join sep parts).toList.any f = parts.any fun part => part.toList.any f := by
  induction parts with
  | nil => rfl
  | cons part parts ih =>
    cases parts with
    | nil => simp [join]
    | cons next rest =>
      unfold join at ih ⊢
      rw [String.intercalate_cons_cons, String.toList_append, String.toList_append,
        String.toList_singleton, List.any_append, List.any_append, ih, List.any_cons,
        List.any_cons, List.any_cons]
      simp [apart]

end Split

section Strip
variable {p : Char → Bool}

theorem toList_stripBy (p : Char → Bool) (s : String) : ∃ front back : List Char,
    s.toList = front ++ (stripBy p s).toList ++ back ∧ (∀ c ∈ front, p c) ∧ ∀ c ∈ back, p c := by
  refine ⟨s.toList.takeWhile p, ((s.toList.dropWhile p).reverse.takeWhile p).reverse, ?_, ?_, ?_⟩
  · unfold stripBy
    rw [String.toList_ofList, List.append_assoc, ← List.reverse_append,
      List.takeWhile_append_dropWhile, List.reverse_reverse, List.takeWhile_append_dropWhile]
  · exact fun c mem => List.mem_takeWhile_imp mem
  · exact fun c mem => List.mem_takeWhile_imp (List.mem_reverse.mp mem)

theorem dropWhile_around {front mid back : List Char} (left : ∀ c ∈ front, p c) :
    (front ++ mid ++ back).dropWhile p = (mid ++ back).dropWhile p := by
  rw [List.append_assoc, List.dropWhile_append_of_pos left]

theorem stripBy_around {front mid back : List Char} (left : ∀ c ∈ front, p c)
    (right : ∀ c ∈ back, p c) :
    stripBy p (String.ofList (front ++ mid ++ back)) = stripBy p (String.ofList mid) := by
  unfold stripBy
  rw [String.toList_ofList, String.toList_ofList, dropWhile_around left, List.dropWhile_append]
  split
  · rename_i blank
    rw [List.isEmpty_iff.mp blank, List.dropWhile_eq_nil_iff.mpr right]
  · rw [List.reverse_append, List.dropWhile_append_of_pos]
    exact fun c mem => right c (List.mem_reverse.mp mem)

theorem stripBy_eq_self {s : String} (plain : ∀ c ∈ s.toList, p c = false) : stripBy p s = s := by
  unfold stripBy
  have kept : ∀ xs : List Char, (∀ c ∈ xs, p c = false) → xs.dropWhile p = xs := fun xs plain =>
    List.dropWhile_eq_self_iff.mpr fun nonempty => by simp [plain _ (List.getElem_mem nonempty)]
  rw [kept _ plain, kept _ fun c mem => plain c (List.mem_reverse.mp mem), List.reverse_reverse,
    String.ofList_toList]

end Strip

section Readline

/-- A text up to the end of its first line, or all of it when no line ends in it. -/
def takeLine : List Char → List Char
  | [] => []
  | '\r' :: '\n' :: _ => ['\r', '\n']
  | c :: rest => if c = '\n' ∨ c = '\r' then [c] else c :: takeLine rest

/-- What a file opened in text mode makes of its line ends. -/
def newlines : List Char → List Char
  | [] => []
  | '\r' :: '\n' :: rest => '\n' :: newlines rest
  | c :: rest => (if c = '\r' then '\n' else c) :: newlines rest

/-- readline of such a file, of what it has read so far. -/
def readLine (text : List Char) : List Char := newlines (takeLine text)

def chomp (line : List Char) : List Char := (line.reverse.dropWhile (· = '\n')).reverse

def fileLines (text : List Char) : List (List Char) :=
  let parts := text.splitOn '\n'
  if parts.getLast? = some [] then parts.dropLast else parts

variable {text rest body part : List Char}

theorem fileLines_break (clean : '\n' ∉ body) :
    fileLines (body ++ '\n' :: rest) = body :: fileLines rest := by
  have parts : (body ++ '\n' :: rest).splitOn '\n' = body :: rest.splitOn '\n' :=
    List.splitOn_append_cons_self_of_not_mem clean rest
  have nonempty := List.splitOn_ne_nil '\n' rest
  unfold fileLines
  rw [parts]
  cases later : rest.splitOn '\n' with
  | nil => exact absurd later nonempty
  | cons first others =>
    simp only [List.getLast?_cons_cons, List.dropLast_cons_cons]
    split <;> rfl

theorem fileLines_plain (nonempty : part ≠ []) (clean : '\n' ∉ part) : fileLines part = [part] := by
  unfold fileLines
  rw [List.splitOn_eq_singleton clean]
  simp [nonempty]

theorem splitOn_append_plain (clean : '\n' ∉ part) (text : List Char) :
    (part ++ text).splitOn '\n' = (text.splitOn '\n').modifyHead (part ++ ·) := by
  induction part with
  | nil =>
    rw [List.nil_append]
    cases text.splitOn '\n' <;> rfl
  | cons c part ih =>
    simp only [List.mem_cons, not_or] at clean
    have other : ¬ (c == '\n') = true := by simpa using fun same : c = '\n' => clean.1 same.symm
    rw [List.cons_append, List.splitOn_cons_eq_if_modifyHead, if_neg other, ih clean.2]
    cases text.splitOn '\n' <;> rfl

theorem fileLines_join (clean : '\n' ∉ part) (nonempty : text ≠ []) :
    (fileLines (part ++ text)).length = (fileLines text).length := by
  unfold fileLines
  rw [splitOn_append_plain clean]
  cases parts : text.splitOn '\n' with
  | nil => exact absurd parts (List.splitOn_ne_nil '\n' text)
  | cons first others =>
    cases others with
    | nil =>
      have whole : ['\n'].intercalate (text.splitOn '\n') = text := List.intercalate_splitOn '\n'
      rw [parts] at whole
      have same : first = text := by simpa using whole
      simp [same, nonempty]
    | cons second others =>
      simp only [List.modifyHead_cons, List.getLast?_cons_cons, List.dropLast_cons_cons]
      split <;> simp

def Clean (text : List Char) : Prop := ∀ c ∈ text, c ≠ '\n' ∧ c ≠ '\r'

/-- A text in which no line ends, so that more of its line may follow. -/
def Unterminated (text : List Char) : Prop := text ≠ [] ∧ Clean text

/-- The text ends inside a line that the later text goes on with: before its end, or between the
    two characters of its end. -/
def Continued (text later : List Char) : Prop :=
  (Unterminated text ∧ later ≠ []) ∨
    ∃ body, Clean body ∧ text = body ++ ['\r'] ∧ later.head? = some '\n'

/-- What ends a line. -/
inductive LineEnd : List Char → Prop where
  | feed : LineEnd ['\n']
  | both : LineEnd ['\r', '\n']
  | carriage : LineEnd ['\r']

/-- What takeLine takes of a text that is not empty. -/
inductive LineRead : List Char → Prop where
  | whole {body last : List Char} (clean : Clean body) (ends : LineEnd last) : LineRead (body ++ last)
  | torn {part : List Char} (rest : Unterminated part) : LineRead part

/-- Of lines read one after the other, none is continued by what follows. -/
def Seamless : List (List Char) → Prop
  | [] => True
  | line :: later => ¬ Continued line later.flatten ∧ Seamless later

theorem Clean.cons {c : Char} (clean : Clean (c :: text)) : (c ≠ '\n' ∧ c ≠ '\r') ∧ Clean text :=
  List.forall_mem_cons.mp clean

theorem Clean.feedless (clean : Clean text) : '\n' ∉ text := fun mem => (clean _ mem).1 rfl

theorem takeLine_clean (clean : Clean body) (text : List Char) :
    takeLine (body ++ text) = body ++ takeLine text := by
  induction body with
  | nil => rfl
  | cons c body ih =>
    obtain ⟨plain, clean⟩ := clean.cons
    rw [List.cons_append, takeLine, if_neg (by simpa using plain), ih clean, List.cons_append]
    exact fun _ same _ => plain.2 same

theorem newlines_clean (clean : Clean body) (text : List Char) :
    newlines (body ++ text) = body ++ newlines text := by
  induction body with
  | nil => rfl
  | cons c body ih =>
    obtain ⟨plain, clean⟩ := clean.cons
    rw [List.cons_append, newlines, if_neg plain.2, ih clean, List.cons_append]
    exact fun _ same _ => plain.2 same

theorem cut_line (text : List Char) : Clean text ∨
    ∃ body last rest, Clean body ∧ LineEnd last ∧ text = body ++ last ++ rest ∧
      (last = ['\r'] → rest.head? ≠ some '\n') := by
  induction text with
  | nil => exact Or.inl nofun
  | cons c text ih =>
    by_cases feed : c = '\n'
    · exact Or.inr ⟨[], ['\n'], text, nofun, .feed, by simp [feed], by simp⟩
    by_cases carriage : c = '\r'
    · by_cases next : text.head? = some '\n'
      · obtain ⟨rest, rfl⟩ := List.head?_eq_some_iff.mp next
        exact Or.inr ⟨[], ['\r', '\n'], rest, nofun, .both, by simp [carriage], by simp⟩
      · exact Or.inr ⟨[], ['\r'], text, nofun, .carriage, by simp [carriage], fun _ => next⟩
    have longer : ∀ body, Clean body → Clean (c :: body) := fun body clean =>
      List.forall_mem_cons.mpr ⟨⟨feed, carriage⟩, clean⟩
    rcases ih with clean | ⟨body, last, rest, clean, ends, whole, greedy⟩
    · exact Or.inl (longer text clean)
    · exact Or.inr ⟨c :: body, last, rest, longer body clean, ends, by simp [whole], greedy⟩

theorem takeLine_end {last : List Char} (ends : LineEnd last)
    (greedy : last = ['\r'] → rest.head? ≠ some '\n') : takeLine (last ++ rest) = last := by
  cases ends with
  | feed => simp [takeLine]
  | both => rfl
  | carriage =>
    cases rest with
    | nil => rfl
    | cons c rest =>
      have other : c ≠ '\n' := by simpa using greedy rfl
      rw [List.singleton_append, takeLine, if_pos (Or.inr rfl)]
      exact fun _ _ same => other (List.cons_eq_cons.mp same).1

theorem newlines_end {last : List Char} (ends : LineEnd last)
    (greedy : last = ['\r'] → rest.head? ≠ some '\n') :
    newlines (last ++ rest) = '\n' :: newlines rest := by
  cases ends with
  | feed => simp [newlines]
  | both => rfl
  | carriage =>
    cases rest with
    | nil => rfl
    | cons c rest =>
      have other : c ≠ '\n' := by simpa using greedy rfl
      rw [List.singleton_append, newlines, if_pos rfl]
      exact fun _ _ same => other (List.cons_eq_cons.mp same).1

theorem newlines_ne_nil (nonempty : text ≠ []) : newlines text ≠ [] := by
  intro none
  unfold newlines at none
  split at none
  · exact nonempty rfl
  · cases none
  · cases none

theorem not_continued_whole {last : List Char} (ends : LineEnd last)
    (continued : Continued (body ++ last) text) : last = ['\r'] ∧ text.head? = some '\n' := by
  rcases continued with ⟨torn, -⟩ | ⟨front, clean, same, feed⟩
  · cases ends with
    | feed => exact absurd rfl (torn.2 '\n' (by simp)).1
    | both => exact absurd rfl (torn.2 '\n' (by simp)).1
    | carriage => exact absurd rfl (torn.2 '\r' (by simp)).2
  · have final := congrArg List.getLast? same
    cases ends with
    | feed => simp at final
    | both => simp at final
    | carriage => exact ⟨rfl, feed⟩

/-- A line that is taken is a front of the text, and the text after it continues it only where
    the text as a whole is continued. -/
theorem takeLine_read (nonempty : text ≠ []) : LineRead (takeLine text) ∧
    ∃ rest, text = takeLine text ++ rest ∧
      ∀ later, Continued text later ↔ Continued (takeLine text) (rest ++ later) := by
  rcases cut_line text with clean | ⟨body, last, rest, clean, ends, whole, greedy⟩
  · have all : takeLine text = text := by
      have taken := takeLine_clean clean []
      rwa [List.append_nil, takeLine, List.append_nil] at taken
    rw [all]
    exact ⟨.torn ⟨nonempty, clean⟩, [], by simp, fun later => Iff.rfl⟩
  · have taken : takeLine text = body ++ last := by
      rw [whole, List.append_assoc, takeLine_clean clean, takeLine_end ends greedy]
    rw [taken]
    refine ⟨.whole clean ends, rest, whole, fun later => ?_⟩
    cases rest with
    | nil => rw [whole, List.append_nil, List.nil_append]
    | cons c rest =>
      -- the text has more than the line
      constructor
      · intro continued
        rcases continued with ⟨torn, -⟩ | ⟨front, plain, same, -⟩
        · have here : ∀ c ∈ last, c ≠ '\n' ∧ c ≠ '\r' := fun c mem =>
            torn.2 c (by simp [whole, mem])
          cases ends <;> simp at here
        · rw [whole] at same
          have shorter : (body ++ last) ++ (c :: rest).dropLast = front := by
            have cut := congrArg List.dropLast same
            rwa [List.dropLast_append_of_ne_nil (by simp), List.dropLast_concat] at cut
          have here : ∀ c ∈ last, c ≠ '\n' ∧ c ≠ '\r' := fun c mem =>
            plain c (by simp [← shorter, mem])
          cases ends <;> simp at here
      · intro continued
        obtain ⟨carriage, feed⟩ := not_continued_whole ends continued
        exact absurd (by simpa using feed) (greedy carriage)

theorem LineRead.ne_nil {line : List Char} (read : LineRead line) : line ≠ [] := by
  cases read with
  | whole clean ends => cases ends <;> simp
  | torn rest => exact rest.1

theorem chomp_torn (clean : '\n' ∉ text) : chomp text = text := by
  unfold chomp
  rw [List.dropWhile_eq_self_iff.mpr, List.reverse_reverse]
  intro nonempty
  have mem : text.reverse[0] ∈ text := List.mem_reverse.mp (List.getElem_mem nonempty)
  exact fun feed => clean (of_decide_eq_true feed ▸ mem)

theorem chomp_whole (clean : '\n' ∉ body) : chomp (body ++ ['\n']) = body := by
  have same := chomp_torn clean
  unfold chomp at same ⊢
  rw [List.reverse_append, List.reverse_singleton, List.singleton_append,
    List.dropWhile_cons_of_pos (by simp), same]

theorem fileLines_line {line : List Char} (read : LineRead line) (apart : ¬ Continued line text) :
    fileLines (newlines (line ++ text)) = chomp (newlines line) :: fileLines (newlines text) := by
  cases read with
  | @whole body last clean ends =>
    have greedy : last = ['\r'] → text.head? ≠ some '\n' := fun carriage feed =>
      apart (Or.inr ⟨body, clean, by rw [carriage], feed⟩)
    have alone : newlines (body ++ last) = body ++ ['\n'] := by
      rw [newlines_clean clean]
      cases ends <;> rfl
    rw [alone, chomp_whole clean.feedless, List.append_assoc, newlines_clean clean,
      newlines_end ends greedy, fileLines_break clean.feedless]
  | torn rest =>
    have none : text = [] := by
      by_contra more
      exact apart (Or.inl ⟨rest, more⟩)
    have same : newlines line = line := by
      have kept := newlines_clean rest.2 []
      rwa [List.append_nil, newlines, List.append_nil] at kept
    rw [none, List.append_nil, same, fileLines_plain rest.1 rest.2.feedless,
      chomp_torn rest.2.feedless]
    rfl

theorem fileLines_continued {line : List Char} (continued : Continued line text) :
    (fileLines (newlines (line ++ text))).length = (fileLines (newlines text)).length := by
  rcases continued with ⟨torn, more⟩ | ⟨body, clean, rfl, feed⟩
  · rw [newlines_clean torn.2, fileLines_join torn.2.feedless (newlines_ne_nil more)]
  · obtain ⟨rest, rfl⟩ := List.head?_eq_some_iff.mp feed
    rw [List.append_assoc, newlines_clean clean]
    have both : newlines (['\r'] ++ '\n' :: rest) = '\n' :: newlines rest := rfl
    have bare : newlines ('\n' :: rest) = [] ++ '\n' :: newlines rest := by simp [newlines]
    rw [both, bare, fileLines_break clean.feedless, fileLines_break List.not_mem_nil]
    rfl

/-- The lines that were read are the lines of what was read exactly when none of them is
    continued by what follows it. -/
theorem fileLines_reads {reads : List (List Char)} (each : ∀ line ∈ reads, LineRead line) :
    (fileLines (newlines reads.flatten)).length ≤ reads.length ∧
      (fileLines (newlines reads.flatten) = reads.map (fun line => chomp (newlines line)) ↔
        Seamless reads) := by
  induction reads with
  | nil => exact ⟨le_refl 0, iff_of_true rfl trivial⟩
  | cons line reads ih =>
    obtain ⟨fewer, alike⟩ := ih fun l mem => each l (List.mem_cons_of_mem line mem)
    rw [List.flatten_cons]
    by_cases continued : Continued line reads.flatten
    · have joined := fileLines_continued continued
      refine ⟨by rw [joined]; simp only [List.length_cons]; omega, ?_⟩
      refine iff_of_false (fun same => ?_) (fun seamless => seamless.1 continued)
      have lengths := congrArg List.length same
      rw [joined] at lengths
      simp only [List.length_map, List.length_cons] at lengths
      omega
    · rw [fileLines_line (each line List.mem_cons_self) continued]
      refine ⟨by simpa using fewer, ?_⟩
      rw [List.map_cons, List.cons_eq_cons, alike]
      simp [Seamless, continued]

end Readline

section Partition
variable {sep : Char} {s key value : String}

theorem partition_eq_found_iff : partition sep s = (key, true, value) ↔
    s.toList = key.toList ++ sep :: value.toList ∧ sep ∉ key.toList := by
  unfold partition
  constructor
  · intro found
    split at found
    · cases found
    · rename_i c after rest
      obtain ⟨rfl, -, rfl⟩ := found
      have whole : s.toList.takeWhile (· ≠ sep) ++ s.toList.dropWhile (· ≠ sep) = s.toList :=
        List.takeWhile_append_dropWhile
      have first : c = sep := by
        have stops := List.head?_dropWhile_not (· ≠ sep) s.toList
        rw [rest] at stops
        simpa using stops
      rw [rest, first] at whole
      refine ⟨by rw [String.toList_ofList, String.toList_ofList, whole], ?_⟩
      rw [String.toList_ofList]
      intro mem
      simpa using List.mem_takeWhile_imp mem
  · rintro ⟨text, before⟩
    have apart : ∀ c ∈ key.toList, decide (c ≠ sep) = true := by
      intro c mem
      exact decide_eq_true fun same => before (same ▸ mem)
    have after : s.toList.dropWhile (· ≠ sep) = sep :: value.toList := by
      rw [text, List.dropWhile_append_of_pos apart, List.dropWhile_cons_of_neg (by simp)]
    have front : s.toList.takeWhile (· ≠ sep) = key.toList := by
      rw [text, List.takeWhile_append_of_pos apart, List.takeWhile_cons_of_neg (by simp),
        List.append_nil]
    rw [after, front]
    simp only [String.ofList_toList]

theorem partition_strip (apart : isSpace sep = false)
    (found : partition sep (strip s) = (key, true, value)) :
    ∃ key' value', partition sep s = (key', true, value') ∧ strip key' = strip key ∧
      strip value' = strip value := by
  obtain ⟨front, back, text, left, right⟩ := toList_stripBy isSpace s
  obtain ⟨cut, before⟩ := partition_eq_found_iff.mp found
  unfold strip at cut
  rw [cut] at text
  refine ⟨String.ofList (front ++ key.toList), String.ofList (value.toList ++ back), ?_, ?_, ?_⟩
  · apply partition_eq_found_iff.mpr
    simp only [String.toList_ofList, text, List.append_assoc, List.cons_append, List.mem_append,
      not_or, true_and]
    refine ⟨fun mem => ?_, before⟩
    have blank := left sep mem
    rw [apart] at blank
    cases blank
  · have around : strip (String.ofList (front ++ key.toList ++ [])) = _ :=
      stripBy_around left (by simp)
    simpa [strip] using around
  · have around : strip (String.ofList ([] ++ value.toList ++ back)) = _ :=
      stripBy_around (by simp) right
    simpa [strip] using around

end Partition

end Text
