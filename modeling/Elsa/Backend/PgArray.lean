import Elsa.Base.Steps
import Elsa.Base.Text

/-!
# Array literals of Postgres

`DatabaseClient` writes a list of texts into an array column as a literal and reads it back: `build_pg_array` puts
the texts between commas and braces as they are, `parse_pg_array` cuts what is between the first and the last
character at the commas, takes a pair of quotes off each piece and leaves out empty ones.

A list comes back as it was if and only if none of its texts is empty, holds a comma or stands in quotes
(`parse_build_iff`).  The loop ends on every text, after no more passes than the text has letters
(`parsePgArrayIn_eq`).
-/

namespace Elsa.Backend

open Base

/-- Of two letters or more, and the first and the last are double quotes. -/
def Quoted (token : List Char) : Prop := 2 ≤ token.length ∧ token.head? = some '"' ∧ token.getLast? = some '"'

instance (token : List Char) : Decidable (Quoted token) := inferInstanceAs (Decidable (_ ∧ _ ∧ _))

/-- A pair of quotes is taken off. -/
def unquote (token : List Char) : List Char :=
  if Quoted token then (token.drop 1).take (token.length - 2) else token

/-- What is pushed for a token. -/
def readToken (token : List Char) : Option String :=
  if unquote token = [] then none else some (String.ofList (unquote token))

/-- `inner.find(',', pos)`. -/
def findComma (inner : List Char) (pos : Nat) : Option Nat := ((inner.drop pos).idxOf? ',').map (pos + ·)

private theorem findComma_eq_some {inner : List Char} {pos comma : Nat} (h : findComma inner pos = some comma) :
    pos ≤ comma ∧ comma < inner.length ∧ ',' ∉ (inner.drop pos).take (comma - pos) ∧
      inner.drop pos = (inner.drop pos).take (comma - pos) ++ ',' :: inner.drop (comma + 1) := by
  obtain ⟨i, hi, rfl⟩ := Option.map_eq_some_iff.1 h
  obtain ⟨hlt, hget, hbefore⟩ := List.idxOf?_eq_some_iff.1 hi
  have hlen : i < inner.length - pos := List.length_drop ▸ hlt
  refine ⟨Nat.le_add_right _ _, by omega, ?_, ?_⟩
  · rw [Nat.add_sub_cancel_left]
    intro hmem
    obtain ⟨j, hj, hcomma⟩ := List.mem_take_iff_getElem.1 hmem
    exact hbefore j (by omega) hcomma
  · rw [Nat.add_sub_cancel_left]
    calc inner.drop pos = (inner.drop pos).take i ++ (inner.drop pos).drop i := (List.take_append_drop _ _).symm
      _ = (inner.drop pos).take i ++ ',' :: inner.drop (pos + i + 1) := by
        rw [List.drop_eq_getElem_cons hlt, hget, List.drop_drop, Nat.add_assoc]

/-- The loop of `parse_pg_array`. -/
def parseLoop (inner : List Char) (pos : Nat) (result : List String) : List String :=
  if pos ≤ inner.length then
    match _h : findComma inner pos with
    | none => result ++ (readToken ((inner.drop pos).take (inner.length - pos))).toList
    | some comma => parseLoop inner (comma + 1) (result ++ (readToken ((inner.drop pos).take (comma - pos))).toList)
  else result
termination_by inner.length + 1 - pos
decreasing_by
  have := findComma_eq_some _h
  omega

def parsePgArray (pgArray : String) : List String :=
  if pgArray.toList.length < 2 ∨ pgArray.toList.head? ≠ some '\x7b' then []
  else
    let inner := (pgArray.toList.drop 1).take (pgArray.toList.length - 2)
    if inner = [] then [] else parseLoop inner 0 []

def buildPgArray (items : List String) : String := "\x7b" ++ ",".intercalate items ++ "\x7d"

/-! ### The pieces -/

private theorem trims_unquote : Trims unquote := by
  intro token c hc
  unfold unquote at hc
  split at hc
  · exact List.mem_of_mem_drop (List.mem_of_mem_take hc)
  · exact hc

/-- A piece is read as a field. -/
private theorem toList_readToken {token : List Char} (h : ',' ∉ token) :
    (readToken token).toList = (fields ',' unquote token).map String.ofList := by
  rw [fields_of_notMem h, readToken]
  split <;> rfl

/-- The loop reads the fields between the commas. -/
private theorem parseLoop_eq (inner : List Char) (pos : Nat) (result : List String) (h : pos ≤ inner.length) :
    parseLoop inner pos result = result ++ (fields ',' unquote (inner.drop pos)).map String.ofList := by
  fun_induction parseLoop inner pos result with
  | case1 pos result _ hnone =>
    have hnot : ',' ∉ inner.drop pos := List.idxOf?_eq_none_iff.1 (Option.map_eq_none_iff.1 hnone)
    rw [List.take_of_length_le (Nat.le_of_eq List.length_drop), toList_readToken hnot]
  | case2 pos result _ comma hcomma ih =>
    obtain ⟨_, hlt, hnot, hsplit⟩ := findComma_eq_some hcomma
    rw [ih hlt, toList_readToken hnot]
    conv_rhs => rw [hsplit, fields_append_cons, List.map_append]
    exact List.append_assoc _ _ _
  | case3 pos result hlt => exact absurd h hlt

private theorem parsePgArray_braces (inner : List Char) :
    parsePgArray (String.ofList ('\x7b' :: inner ++ ['\x7d'])) = (fields ',' unquote inner).map String.ofList := by
  have hinner : (('\x7b' :: inner ++ ['\x7d']).drop 1).take (('\x7b' :: inner ++ ['\x7d']).length - 2) = inner := by
    simp
  unfold parsePgArray
  rw [String.toList_ofList, hinner, if_neg (by simp)]
  dsimp only
  split
  · rename_i hnil
    rw [hnil]
    rfl
  · rw [parseLoop_eq _ _ _ (Nat.zero_le _)]
    rfl

/-! ### The round trip -/

private theorem unquote_eq_self {token : List Char} : unquote token = token ↔ ¬ Quoted token := by
  unfold unquote
  split
  · rename_i hq
    refine iff_of_false (fun h => ?_) (not_not.2 hq)
    have hlen := congrArg List.length h
    rw [List.length_take, List.length_drop] at hlen
    have := hq.1
    omega
  · rename_i hq
    exact iff_of_true rfl hq

/-- A text that the literal keeps: not empty, without comma, and not in quotes. -/
def Kept (item : String) : Prop := item.toList ≠ [] ∧ ',' ∉ item.toList ∧ ¬ Quoted item.toList

instance (item : String) : Decidable (Kept item) := inferInstanceAs (Decidable (_ ∧ _ ∧ _))

/-- A list is read back as it was written if and only if each of its texts is kept. -/
theorem parse_build_iff {items : List String} :
    parsePgArray (buildPgArray items) = items ↔ ∀ item ∈ items, Kept item := by
  have hliteral : buildPgArray items = String.ofList
      ('\x7b' :: [','].intercalate (items.map String.toList) ++ ['\x7d']) := by
    rw [← String.toList_inj, String.toList_ofList, buildPgArray, String.toList_append, String.toList_append,
      String.toList_intercalate]
    rfl
  rw [hliteral, parsePgArray_braces, map_ofList_eq_iff, fields_intercalate_iff trims_unquote, List.forall_mem_map]
  simp only [unquote_eq_self, Kept]

/-! ### The passes of the loop -/

/-- One pass: the test, the token, and the step behind the comma. -/
def parsePass (inner : List Char) (s : Nat × List String) : (Nat × List String) ⊕ List String :=
  if s.1 ≤ inner.length then
    match findComma inner s.1 with
    | none => .inr (s.2 ++ (readToken ((inner.drop s.1).take (inner.length - s.1))).toList)
    | some comma => .inl (comma + 1, s.2 ++ (readToken ((inner.drop s.1).take (comma - s.1))).toList)
  else .inr s.2

/-- `parse_pg_array` when its loop is given at most `n` passes. -/
def parsePgArrayIn (n : Nat) (pgArray : String) : Option (List String) :=
  if pgArray.toList.length < 2 ∨ pgArray.toList.head? ≠ some '\x7b' then some []
  else
    let inner := (pgArray.toList.drop 1).take (pgArray.toList.length - 2)
    if inner = [] then some [] else passes (parsePass inner) n (0, [])

/-- A pass that goes on comes closer to the end of the text. -/
private theorem parsePass_on {inner : List Char} {s s' : Nat × List String} (h : parsePass inner s = .inl s') :
    inner.length + 1 - s'.1 < inner.length + 1 - s.1 ∧ parseLoop inner s.1 s.2 = parseLoop inner s'.1 s'.2 := by
  rw [parseLoop]
  unfold parsePass at h
  split at h
  · rename_i hle
    rw [if_pos hle]
    split at h
    · cases h
    · rename_i comma hcomma
      cases h
      have := findComma_eq_some hcomma
      refine ⟨by omega, ?_⟩
      split
      · rename_i hnone
        rw [hcomma] at hnone
        cases hnone
      · rename_i comma' hcomma'
        cases hcomma.symm.trans hcomma'
        rfl
  · cases h

private theorem parsePass_leave {inner : List Char} {s : Nat × List String} {result : List String}
    (h : parsePass inner s = .inr result) : parseLoop inner s.1 s.2 = result := by
  rw [parseLoop]
  unfold parsePass at h
  split at h
  · rename_i hle
    rw [if_pos hle]
    split at h
    · rename_i hnone
      cases h
      split
      · rfl
      · rename_i hcomma
        cases hnone.symm.trans hcomma
    · cases h
  · rename_i hlt
    rw [if_neg hlt]
    exact Sum.inr.inj h

/-- As many passes as the text has letters are enough. -/
theorem parsePgArrayIn_eq {n : Nat} {pgArray : String} (h : pgArray.toList.length ≤ n) :
    parsePgArrayIn n pgArray = some (parsePgArray pgArray) := by
  unfold parsePgArrayIn parsePgArray
  split
  · rfl
  · rename_i hlong
    dsimp only
    split
    · rfl
    · refine passes_of_measure (fun s : Nat × List String => _ + 1 - s.1) (fun s => parseLoop _ s.1 s.2)
        (fun _ _ => parsePass_on) (fun _ _ => parsePass_leave) ?_
      rw [List.length_take, List.length_drop]
      omega

/-- The literal is read back as the list it was written from if and only if no text of the list is empty, holds a
comma or is of two letters or more with a double quote at both ends; and on every text the loop of the reader ends,
after no more passes than the text has letters. -/
theorem pg_array_round_trip (items : List String) (text : String) (extra : Nat) :
    (parsePgArray (buildPgArray items) = items ↔
      ∀ item ∈ items, item ≠ "" ∧ ',' ∉ item.toList ∧
        ¬ (2 ≤ item.length ∧ item.toList.head? = some '"' ∧ item.toList.getLast? = some '"')) ∧
    parsePgArrayIn (text.length + extra) text = some (parsePgArray text) := by
  constructor
  · rw [parse_build_iff]
    simp only [Kept, Quoted, ne_eq, String.toList_eq_nil_iff, String.length_toList]
  · refine parsePgArrayIn_eq ?_
    rw [String.length_toList]
    exact Nat.le_add_right _ _

end Elsa.Backend
