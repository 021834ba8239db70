import Mathlib.Logic.Basic
import Elsa.Base.Text

/-!
# Settings files

A settings file is read line by line, without the blanks around a line.  A line that starts with `#` says nothing;
`[name]` opens a section; `key=value` sets a key of the section that is open, anew if the section has set it before.
Other lines are passed over.

What a text says is read from a state, the sections so far with the open one first, so that the parts of a text can
be read one after the other (`readFrom_append`, `readFrom_intercalate`).  A section has been opened by a line
(`exists_header`), and the letters of a value stand on a line (`exists_line`).
-/

namespace Base.Settings

structure Section where
  name : List Char
  entries : List (List Char × List Char)
deriving DecidableEq, Repr

/-- The value of a key that was set last. -/
def Section.get? (s : Section) (key : List Char) : Option (List Char) :=
  (s.entries.find? fun e => e.1 = key).map Prod.snd

def isBlank (c : Char) : Bool := c = ' ' || c = '\t' || c = '\r' || c = '\n'

inductive Line
  | header (name : List Char)
  | entry (key value : List Char)
  | other
deriving DecidableEq, Repr

def parseLine (raw : List Char) : Line :=
  let line := strip isBlank raw
  if line.head? = some '#' then .other
  else if line.head? = some '[' ∧ line.getLast? = some ']' then .header line.tail.dropLast
  else if '=' ∈ line then .entry (strip isBlank (line.take (line.idxOf '=')))
    (strip isBlank (line.drop (line.idxOf '=' + 1)))
  else .other

/-- The sections so far, the open one first, after one more line. -/
def readLine (sections : List Section) (line : List Char) : List Section :=
  match parseLine line with
  | .header name => ⟨name, []⟩ :: sections
  | .entry key value => sections.modifyHead fun s => { s with entries := (key, value) :: s.entries }
  | .other => sections

/-- The sections so far, after one more text. -/
def readFrom (sections : List Section) (text : List Char) :
    List Section := (text.splitOn '\n').foldl readLine sections

/-- The sections of a text. -/
def read (text : List Char) : List Section := (readFrom [] text).reverse

/-! ### Lines -/

/-- A text that a line may set as a value: on one line, without blanks at its ends. -/
def IsValue (value : List Char) : Prop := '\n' ∉ value ∧ strip isBlank value = value

instance (value : List Char) : Decidable (IsValue value) := inferInstanceAs (Decidable (_ ∧ _))

/-- A text that a line may set a value for. -/
def IsKey (key : List Char) : Prop := IsValue key ∧ '=' ∉ key ∧ key ≠ [] ∧ key.head? ≠ some '#' ∧ key.head? ≠ some '['

instance (key : List Char) : Decidable (IsKey key) := inferInstanceAs (Decidable (_ ∧ _ ∧ _ ∧ _ ∧ _))

theorem parseLine_entry {key value : List Char} (hkey : IsKey key) (hvalue : IsValue value) :
    parseLine (key ++ '=' :: value) = .entry key value := by
  obtain ⟨⟨-, hstrip⟩, heq, hne, hcomment, hheader⟩ := hkey
  have hfirst : (key ++ '=' :: value).head? = key.head? := List.head?_append_of_ne_nil _ hne
  have hline : strip isBlank (key ++ '=' :: value) = key ++ '=' :: value := by
    refine strip_eq_self_iff.2 ⟨?_, ?_⟩
    · rw [hfirst]
      exact (strip_eq_self_iff.1 hstrip).1
    · rw [List.getLast?_append_cons]
      cases value with
      | nil =>
        rintro c ⟨⟩
        rfl
      | cons d value => exact (strip_eq_self_iff.1 hvalue.2).2
  have hidx : (key ++ '=' :: value).idxOf '=' = key.length := by
    rw [List.idxOf_append_of_notMem heq, List.idxOf_cons_self, Nat.add_zero]
  have hafter : (key ++ '=' :: value).drop (key.length + 1) = value := by simp
  unfold parseLine
  rw [hline]
  dsimp only
  rw [hfirst, if_neg hcomment, if_neg fun h => hheader h.1, if_pos (by simp), hidx, List.take_left' rfl, hafter,
    hstrip, hvalue.2]

theorem readLine_header {sections : List Section} {line name : List Char} (h : parseLine line = .header name) :
    readLine sections line = ⟨name, []⟩ :: sections := by
  simp only [readLine, h]

private theorem readLine_entry {s : Section} {sections : List Section} {line key value : List Char}
    (h : parseLine line = .entry key value) :
    readLine (s :: sections) line = { s with entries := (key, value) :: s.entries } :: sections := by
  simp only [readLine, h, List.modifyHead_cons]

/-! ### Texts -/

theorem readFrom_line {line : List Char} (h : '\n' ∉ line) (sections : List Section) :
    readFrom sections line = readLine sections line := by
  rw [readFrom, splitOn_of_notMem h]
  rfl

@[simp] theorem readFrom_nil (sections : List Section) : readFrom sections [] = sections :=
  readFrom_line List.not_mem_nil sections

theorem newline_notMem_entry {key value : List Char} (hkey : IsKey key) (hvalue : IsValue value) :
    '\n' ∉ key ++ '=' :: value := by
  rw [List.mem_append, List.mem_cons]
  rintro (h | h | h)
  · exact hkey.1.1 h
  · cases h
  · exact hvalue.1 h

theorem readFrom_entry {key value : List Char} (hkey : IsKey key) (hvalue : IsValue value) (s : Section)
    (sections : List Section) :
    readFrom (s :: sections) (key ++ '=' :: value) = { s with entries := (key, value) :: s.entries } :: sections := by
  rw [readFrom_line (newline_notMem_entry hkey hvalue), readLine_entry (parseLine_entry hkey hvalue)]

theorem readFrom_append (sections : List Section) (text rest : List Char) :
    readFrom sections (text ++ '\n' :: rest) = readFrom (readFrom sections text) rest := by
  rw [readFrom, splitOn_append_cons, List.foldl_append]
  rfl

/-- Texts with an empty line between them are read one after the other. -/
theorem readFrom_intercalate (texts : List (List Char)) (sections : List Section) :
    readFrom sections (['\n', '\n'].intercalate texts) = texts.foldl readFrom sections := by
  induction texts generalizing sections with
  | nil => exact readFrom_nil sections
  | cons text texts ih =>
    cases texts with
    | nil =>
      rw [List.intercalate_singleton]
      rfl
    | cons next texts =>
      have hjoin : ['\n', '\n'].intercalate (text :: next :: texts) =
          text ++ '\n' :: ([] ++ '\n' :: ['\n', '\n'].intercalate (next :: texts)) := by
        rw [List.intercalate_cons_cons, List.append_assoc]
        rfl
      rw [hjoin, readFrom_append, readFrom_append, readFrom_nil, ih]
      rfl

/-! ### Where sections and values come from -/

theorem exists_header {lines : List (List Char)} {sections : List Section} {s : Section}
    (h : s ∈ lines.foldl readLine sections) :
    (∃ line ∈ lines, parseLine line = .header s.name) ∨ s.name ∈ sections.map Section.name := by
  induction lines generalizing sections with
  | nil => exact .inr (List.mem_map_of_mem h)
  | cons line lines ih =>
    rcases ih h with ⟨line', hmem, hline⟩ | hname
    · exact .inl ⟨line', List.mem_cons_of_mem _ hmem, hline⟩
    · unfold readLine at hname
      split at hname
      · rename_i name hline
        rcases List.mem_cons.1 hname with hname | hname
        · exact .inl ⟨line, List.mem_cons_self, hname ▸ hline⟩
        · exact .inr hname
      · cases sections <;> exact .inr hname
      · exact .inr hname

private theorem value_subset_of_entry {line key value : List Char} (h : parseLine line = .entry key value) :
    value ⊆ line := by
  unfold parseLine at h
  dsimp only at h
  split at h
  · cases h
  · split at h
    · cases h
    · split at h
      · cases h
        exact fun c hc => strip_subset _ _ (List.mem_of_mem_drop (strip_subset _ _ hc))
      · cases h

/-- The letter stands in a value of one of the sections. -/
def Holds (sections : List Section) (c : Char) : Prop := ∃ s ∈ sections, ∃ e ∈ s.entries, c ∈ e.2

theorem exists_line {lines : List (List Char)} {sections : List Section} {c : Char}
    (h : Holds (lines.foldl readLine sections) c) : (∃ line ∈ lines, c ∈ line) ∨ Holds sections c := by
  induction lines generalizing sections with
  | nil => exact .inr h
  | cons line lines ih =>
    rcases ih h with ⟨line', hmem, hc⟩ | ⟨s, hs, e, he, hc⟩
    · exact .inl ⟨line', List.mem_cons_of_mem _ hmem, hc⟩
    · unfold readLine at hs
      split at hs
      · rcases List.mem_cons.1 hs with rfl | hs
        · cases he
        · exact .inr ⟨s, hs, e, he, hc⟩
      · rename_i key value hline
        cases sections with
        | nil => cases hs
        | cons first sections =>
          rcases List.mem_cons.1 hs with rfl | hs
          · rcases List.mem_cons.1 he with rfl | he
            · exact .inl ⟨line, List.mem_cons_self, value_subset_of_entry hline hc⟩
            · exact .inr ⟨first, List.mem_cons_self, e, he, hc⟩
          · exact .inr ⟨s, List.mem_cons_of_mem _ hs, e, he, hc⟩
      · exact .inr ⟨s, hs, e, he, hc⟩

/-- No value holds the end of a line. -/
theorem newline_notMem {text key value : List Char} {s : Section} (hs : s ∈ read text)
    (hget : s.get? key = some value) : '\n' ∉ value := by
  intro hc
  obtain ⟨e, he, rfl⟩ := Option.map_eq_some_iff.1 hget
  rcases exists_line ⟨s, List.mem_reverse.1 hs, e, List.mem_of_find?_eq_some he, hc⟩ with
    ⟨line, hline, hmem⟩ | ⟨s, hs, -⟩
  · exact notMem_of_mem_splitOn hline hmem
  · cases hs

end Base.Settings
