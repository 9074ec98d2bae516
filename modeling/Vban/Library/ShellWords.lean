import Mathlib.Data.List.Basic

/-! The words of a simple shell command: blanks separate, single quotes take all literally, and the
first word names the command. -/
namespace Vban.Library

def singleQuote : UInt8 := 39

def isBlank (c : UInt8) : Bool := c = 32 || c = 9

/-- A character that can mean more than itself outside quotes, besides blanks and single quotes: an
operator, an expansion, another kind of quoting, or a line end. -/
def isSpecial (c : UInt8) : Bool :=
  [10, 34, 35, 36, 38, 40, 41, 42, 59, 60, 62, 63, 91, 92, 96, 123, 124, 125, 126].contains c

/-- Between two words, in a word, or in quotes within a word. -/
inductive LexState
  | between
  | word (text : List UInt8)
  | quoted (text : List UInt8)

namespace LexState

def text : LexState → List UInt8
  | between => []
  | word text => text
  | quoted text => text

/-- The word that a blank or the end closes. -/
def closed : LexState → List (List UInt8)
  | between => []
  | word text => [text]
  | quoted _ => []

end LexState

/-- The words from a state on. `none` is anything else than one simple command of plain words. -/
def lexWords : LexState → List UInt8 → Option (List (List UInt8))
  | .quoted _, [] => none
  | .quoted text, c :: rest =>
    if c = singleQuote then lexWords (.word text) rest else lexWords (.quoted (text ++ [c])) rest
  | s, [] => some s.closed
  | s, c :: rest =>
    if c = singleQuote then lexWords (.quoted s.text) rest
    else if isBlank c then (lexWords .between rest).map (s.closed ++ ·)
    else if isSpecial c then none
    else lexWords (.word (s.text ++ [c])) rest

/-- What the shell may read as a word of its grammar where a command starts. -/
def reservedWords : List (List UInt8) :=
  ["!", "]]", "case", "do", "done", "elif", "else", "esac", "fi", "for", "function", "if", "in",
    "select", "then", "time", "until", "while"].map fun s => s.toList.map fun c => .ofNat c.toNat

/-- A letter or an underscore, or after the first character a digit. -/
def isNameChar (first : Bool) (c : UInt8) : Bool :=
  65 ≤ c && c ≤ 90 || 97 ≤ c && c ≤ 122 || c = 95 || !first && 48 ≤ c && c ≤ 57

/-- The word starts with a name and an equals sign, which sets a variable. -/
def isAssignment : List UInt8 → Bool
  | [] => false
  | c :: rest => isNameChar true c && (rest.dropWhile (isNameChar false)).head? = some 61

/-- The shell takes the word, as it is written, for the name of a command. -/
def namesCommand (word : List UInt8) : Bool := !reservedWords.contains word && !isAssignment word

/-- The first word as it is written, up to a blank. -/
def firstWritten (command : List UInt8) : List UInt8 :=
  (command.dropWhile isBlank).takeWhile fun c => !isBlank c

def shellWords (command : List UInt8) : Option (List (List UInt8)) :=
  if namesCommand (firstWritten command) then lexWords .between command else none

/-- A character that stands for itself. -/
def isPlain (c : UInt8) : Bool := c ≠ singleQuote && !isBlank c && !isSpecial c

/-- A word that the shell takes as it stands. -/
def IsPlainWord (word : List UInt8) : Prop := word ≠ [] ∧ ∀ c ∈ word, isPlain c = true

variable {s : LexState} {command rest text word : List UInt8} {words : List (List UInt8)}

/-- A step outside quotes. -/
theorem lexWords_cons (hs : ∀ text, s ≠ .quoted text) (c : UInt8) (rest : List UInt8) :
    lexWords s (c :: rest) =
      if c = singleQuote then lexWords (.quoted s.text) rest
      else if isBlank c then (lexWords .between rest).map (s.closed ++ ·)
      else if isSpecial c then none
      else lexWords (.word (s.text ++ [c])) rest := by
  rw [lexWords]
  exact hs

/-- Plain characters go on with the word. -/
theorem lexWords_plain (hplain : ∀ c ∈ text, isPlain c = true) :
    lexWords (.word word) (text ++ rest) = lexWords (.word (word ++ text)) rest := by
  induction text generalizing word with
  | nil => simp
  | cons c text ih =>
    have hc := hplain c List.mem_cons_self
    simp only [isPlain, Bool.and_eq_true, Bool.not_eq_true', decide_eq_true_eq] at hc
    obtain ⟨⟨hquote, hblank⟩, hspecial⟩ := hc
    rw [List.cons_append, lexWords_cons (by simp), if_neg hquote, hblank, hspecial]
    simp only [Bool.false_eq_true, if_false]
    rw [LexState.text, ih fun d hd => hplain d (List.mem_cons_of_mem c hd), List.append_assoc]
    rfl

/-- A word starts with its first character. -/
theorem lexWords_between (hne : text ≠ []) (hplain : ∀ c ∈ text, isPlain c = true) :
    lexWords .between (text ++ rest) = lexWords (.word text) rest := by
  obtain ⟨c, text, rfl⟩ := List.exists_cons_of_ne_nil hne
  have hc := hplain c List.mem_cons_self
  simp only [isPlain, Bool.and_eq_true, Bool.not_eq_true', decide_eq_true_eq] at hc
  obtain ⟨⟨hquote, hblank⟩, hspecial⟩ := hc
  rw [List.cons_append, lexWords_cons (by simp), if_neg hquote, hblank, hspecial]
  simp only [Bool.false_eq_true, if_false]
  exact lexWords_plain fun d hd => hplain d (List.mem_cons_of_mem c hd)

/-- All up to the closing quote belongs to the word. -/
theorem lexWords_quoted (htext : singleQuote ∉ text) :
    lexWords (.quoted word) (text ++ singleQuote :: rest) =
      lexWords (.word (word ++ text)) rest := by
  induction text generalizing word with
  | nil => simp [lexWords]
  | cons c text ih =>
    have hc : c ≠ singleQuote := fun h => htext (by simp [h])
    rw [List.cons_append, lexWords, if_neg hc, ih fun h => htext (List.mem_cons_of_mem c h),
      List.append_assoc]
    rfl

/-- A quote opens within a word. -/
theorem lexWords_open : lexWords (.word word) (singleQuote :: rest) =
    lexWords (.quoted word) rest := by
  rw [lexWords_cons (by simp), if_pos rfl]
  rfl

/-- A blank ends a word. -/
theorem lexWords_blank : lexWords (.word word) (32 :: rest) =
    (lexWords .between rest).map (word :: ·) := by
  rw [lexWords_cons (by simp), if_neg (by decide), if_pos (show isBlank 32 = true from rfl)]
  rfl

/-- A word without quotes, before other words. -/
theorem lexWords_word (hne : word ≠ []) (hplain : ∀ c ∈ word, isPlain c = true) :
    lexWords .between (word ++ 32 :: rest) = (lexWords .between rest).map (word :: ·) := by
  rw [lexWords_between hne hplain, lexWords_blank]

/-- A word that ends with a quoted part, before other words. -/
theorem lexWords_quotedWord (hne : word ≠ []) (hplain : ∀ c ∈ word, isPlain c = true)
    (htext : singleQuote ∉ text) :
    lexWords .between (word ++ singleQuote :: (text ++ singleQuote :: 32 :: rest)) =
      (lexWords .between rest).map ((word ++ text) :: ·) := by
  rw [lexWords_between hne hplain, lexWords_open, lexWords_quoted htext, lexWords_blank]

/-- The last word, without quotes. -/
theorem lexWords_last (hne : word ≠ []) (hplain : ∀ c ∈ word, isPlain c = true) :
    lexWords .between word = some [word] := by
  have h : lexWords .between (word ++ []) = lexWords (.word word) [] :=
    lexWords_between hne hplain
  rw [List.append_nil] at h
  exact h

/-- No word holds a quote: quotes are taken away, and nothing stands for one. -/
theorem singleQuote_notMem (hs : singleQuote ∉ s.text) (h : lexWords s command = some words) :
    ∀ w ∈ words, singleQuote ∉ w := by
  have hclosed : ∀ s : LexState, singleQuote ∉ s.text → ∀ w ∈ s.closed, singleQuote ∉ w := by
    intro s hs w hw
    cases s with
    | between => cases hw
    | word text =>
      rw [List.mem_singleton.mp hw]
      exact hs
    | quoted text => cases hw
  have hsnoc : ∀ (text : List UInt8) (c : UInt8), singleQuote ∉ text → c ≠ singleQuote →
      singleQuote ∉ text ++ [c] := by
    intro text c htext hc hmem
    rcases List.mem_append.mp hmem with hmem | hmem
    · exact htext hmem
    · exact hc (List.mem_singleton.mp hmem).symm
  induction command generalizing s words with
  | nil =>
    cases s with
    | quoted text => cases h
    | between =>
      obtain rfl := Option.some.inj h
      exact hclosed _ hs
    | word text =>
      obtain rfl := Option.some.inj h
      exact hclosed _ hs
  | cons c rest ih =>
    by_cases hopen : ∃ text, s = .quoted text
    · obtain ⟨text, rfl⟩ := hopen
      rw [lexWords] at h
      split_ifs at h with hquote
      · exact ih (s := .word text) hs h
      · exact ih (s := .quoted (text ++ [c])) (hsnoc text c hs hquote) h
    · rw [lexWords_cons fun text htext => hopen ⟨text, htext⟩] at h
      split_ifs at h with hquote hblank
      · exact ih (s := .quoted s.text) hs h
      · obtain ⟨words', hwords', rfl⟩ := Option.map_eq_some_iff.mp h
        intro w hw
        rcases List.mem_append.mp hw with hw | hw
        · exact hclosed s hs w hw
        · exact ih (s := .between) (by simp [LexState.text]) hwords' w hw
      · exact ih (s := .word (s.text ++ [c])) (hsnoc s.text c hs hquote) h

/-- A plain word is written as it is. -/
theorem firstWritten_word (h : IsPlainWord word) (hrest : ∀ c ∈ rest.head?, isBlank c = true) :
    firstWritten (word ++ rest) = word := by
  have hblank : ∀ c ∈ word, (!isBlank c) = true := by
    intro c hc
    have hplain := h.2 c hc
    simp only [isPlain, Bool.and_eq_true] at hplain
    exact hplain.1.2
  have hstart : (word ++ rest).dropWhile isBlank = word ++ rest := by
    obtain ⟨c, text, rfl⟩ := List.exists_cons_of_ne_nil h.1
    have hc : isBlank c = false := by simpa using hblank c List.mem_cons_self
    rw [List.cons_append, List.dropWhile_cons_of_neg (by simp [hc])]
  rw [firstWritten, hstart, List.takeWhile_append_of_pos hblank]
  cases rest with
  | nil => simp
  | cons c rest =>
    rw [List.takeWhile_cons_of_neg (by simp [hrest c rfl]), List.append_nil]

/-- The words of a command that a plain word names. -/
theorem shellWords_of_plain (h : IsPlainWord word) (hrest : ∀ c ∈ rest.head?, isBlank c = true) :
    shellWords (word ++ rest) =
      if namesCommand word then lexWords .between (word ++ rest) else none := by
  rw [shellWords, firstWritten_word h hrest]

theorem lexWords_of_shellWords (h : shellWords command = some words) :
    lexWords .between command = some words := by
  rw [shellWords] at h
  split_ifs at h
  exact h

/-- Plain words with a blank before each but the first are the words of the command. -/
theorem lexWords_words (h : ∀ w ∈ word :: words, IsPlainWord w) :
    lexWords .between (word ++ words.flatMap (32 :: ·)) = some (word :: words) := by
  induction words generalizing word with
  | nil =>
    obtain ⟨hne, hplain⟩ := h word List.mem_cons_self
    rw [List.flatMap_nil, List.append_nil, lexWords_last hne hplain]
  | cons next words ih =>
    obtain ⟨⟨hne, hplain⟩, hrest⟩ := List.forall_mem_cons.mp h
    rw [List.flatMap_cons, List.cons_append, lexWords_word hne hplain, ih hrest, Option.map_some]

theorem shellWords_words (h : ∀ w ∈ word :: words, IsPlainWord w) :
    shellWords (word ++ words.flatMap (32 :: ·)) =
      if namesCommand word then some (word :: words) else none := by
  rw [shellWords_of_plain (h word List.mem_cons_self), lexWords_words h]
  cases words with
  | nil => simp
  | cons next words => simp [isBlank]

/-- Without quotes all words are plain. -/
theorem isPlainWord_of_lexWords (hcommand : singleQuote ∉ command)
    (hs : s = .between ∨ ∃ text, s = .word text ∧ IsPlainWord text)
    (h : lexWords s command = some words) : ∀ w ∈ words, IsPlainWord w := by
  have hclosed : ∀ w ∈ s.closed, IsPlainWord w := by
    intro w hw
    rcases hs with rfl | ⟨text, rfl, htext⟩
    · cases hw
    · rwa [List.mem_singleton.mp hw]
  have hopen : ∀ text, s ≠ .quoted text := by
    rintro text rfl
    simp at hs
  induction command generalizing s words with
  | nil =>
    have hend : lexWords s [] = some s.closed := by
      rcases hs with rfl | ⟨text, rfl, -⟩ <;> rfl
    rw [hend] at h
    rwa [← Option.some.inj h]
  | cons c rest ih =>
    have hquote : c ≠ singleQuote := fun he => hcommand (by simp [he])
    have hrest : singleQuote ∉ rest := fun hmem => hcommand (List.mem_cons_of_mem c hmem)
    rw [lexWords_cons hopen, if_neg hquote] at h
    split_ifs at h with hblank hspecial
    · obtain ⟨words', hwords', rfl⟩ := Option.map_eq_some_iff.mp h
      have htail := ih hrest (Or.inl rfl) hwords' (by simp [LexState.closed]) (by simp)
      exact List.forall_mem_append.mpr ⟨hclosed, htail⟩
    · have hc : isPlain c = true := by simp [isPlain, hquote, hblank, hspecial]
      have hword : IsPlainWord (s.text ++ [c]) := by
        refine ⟨by simp, List.forall_mem_append.mpr ⟨?_, by simpa using hc⟩⟩
        rcases hs with rfl | ⟨text, rfl, htext⟩
        · simp [LexState.text]
        · exact htext.2
      refine ih hrest (Or.inr ⟨_, rfl, hword⟩) h ?_ (by simp)
      intro w hw
      rwa [List.mem_singleton.mp hw]

end Vban.Library
