set_option autoImplicit false

/-!
# Text: cutting at a separator

`splitOn sep` cuts a text at every occurrence of a character and `joinWith sep` writes the
pieces back.  The two are inverse: joining the pieces of a text gives the text, and splitting
the join of pieces that do not hold the separator gives the pieces.
-/

namespace WebBundler.Text

/-- The pieces of a text between the occurrences of `sep`, at least one. -/
def splitOn (sep : Char) : List Char → List (List Char)
  | [] => [[]]
  | c :: cs =>
    if c = sep then [] :: splitOn sep cs
    else
      match splitOn sep cs with
      | [] => [[c]]
      | piece :: pieces => (c :: piece) :: pieces

/-- The pieces in order with `sep` between neighbours. -/
def joinWith (sep : Char) : List (List Char) → List Char
  | [] => []
  | [piece] => piece
  | piece :: next :: pieces => piece ++ sep :: joinWith sep (next :: pieces)

theorem splitOn_ne_nil (sep : Char) (s : List Char) : splitOn sep s ≠ [] := by
  cases s with
  | nil => simp [splitOn]
  | cons c cs =>
    by_cases h : c = sep
    · simp [splitOn, h]
    · simp only [splitOn, h, if_false]
      split <;> simp

theorem joinWith_splitOn (sep : Char) (s : List Char) : joinWith sep (splitOn sep s) = s := by
  induction s with
  | nil => rfl
  | cons c cs ih =>
    have hne := splitOn_ne_nil sep cs
    by_cases h : c = sep
    · simp only [splitOn, h, if_true]
      match hs : splitOn sep cs with
      | [] => exact absurd hs hne
      | p :: ps => simp [joinWith, ← hs, ih]
    · simp only [splitOn, h, if_false]
      match hs : splitOn sep cs with
      | [] => exact absurd hs hne
      | [p] => rw [hs] at ih; simpa [joinWith] using ih
      | p :: q :: ps => rw [hs] at ih; simpa [joinWith] using ih

/-- The text before the first occurrence of a character and the text after it. -/
def cutFirst (sep : Char) : List Char → Option (List Char × List Char)
  | [] => none
  | c :: cs =>
    if c = sep then some ([], cs) else (cutFirst sep cs).map fun (a, b) => (c :: a, b)

/-- The text before the last occurrence of a character and the text after it. -/
def cutLast (sep : Char) (s : List Char) : Option (List Char × List Char) :=
  (cutFirst sep s.reverse).map fun (after, before) => (before.reverse, after.reverse)

theorem cutFirst_eq_some {sep : Char} {s a b : List Char} (h : cutFirst sep s = some (a, b)) :
    s = a ++ sep :: b ∧ sep ∉ a := by
  induction s generalizing a b with
  | nil => simp [cutFirst] at h
  | cons c cs ih =>
    by_cases hc : c = sep
    · simp [cutFirst, hc] at h
      obtain ⟨rfl, rfl⟩ := h
      simp [hc]
    · simp only [cutFirst, hc, if_false, Option.map_eq_some_iff, Prod.exists, Prod.mk.injEq]
        at h
      obtain ⟨a', b', hcut, rfl, rfl⟩ := h
      obtain ⟨rfl, hmem⟩ := ih hcut
      refine ⟨by simp, ?_⟩
      simp only [List.mem_cons, not_or]
      exact ⟨fun e => hc e.symm, hmem⟩

/-- Pieces of text with a text between neighbours. -/
def joinText (sep : String) (pieces : List String) : String := String.intercalate sep pieces

/-- A text that starts with the given one, less that start. -/
def dropPrefix? (start s : String) : Option String :=
  if start.toList.isPrefixOf s.toList then some (String.ofList (s.toList.drop start.length))
  else none

/-- The text with every occurrence of one character written as another. -/
def replaceChar (old new : Char) (s : String) : String :=
  String.ofList (s.toList.map fun c => if c = old then new else c)

/-- The text ends with the given one. -/
def endsWith (s suffix : String) : Bool := suffix.toList.isSuffixOf s.toList

/-- The text starts with the given one. -/
def startsWith (s start : String) : Bool := start.toList.isPrefixOf s.toList

/-- ASCII letters in lower case, all else as it is. -/
def lowerAscii (s : String) : String := String.ofList (s.toList.map Char.toLower)

end WebBundler.Text
