import WebBundler.Text.Blank
import WebBundler.Text.Utf8
import WebBundler.Text.Word
set_option autoImplicit false

/-!
# Script: references

A script refers to a module by a call `require("specifier")`.  A call is found by its spelling
alone: `require` where a word starts, a specifier without quotes between two quotes of either
kind, and brackets around it, with blanks anywhere between these parts.

`Cuts.of` divides a source at the specifiers of its calls, taken from the left, each from the
first place after the one before.  The parts make up the source (`Cuts.text_of`), so that a
specifier can be replaced without touching anything else.
-/

namespace WebBundler.Script

/-! ## One call -/

/-- A call at the start of a text. -/
structure Call where
  /-- The text up to the specifier. -/
  opening : List Char
  specifier : List Char
  /-- The rest of the call. -/
  closing : List Char
  /-- What follows the call. -/
  rest : List Char
  deriving DecidableEq, Repr, Inhabited

/-- The word that a call starts with. -/
def keyword : List Char := ['r', 'e', 'q', 'u', 'i', 'r', 'e']

/-- The quotes around a specifier; the two need not be of one kind. -/
def isQuote (c : Char) : Bool := c == '\x27' || c == '"'

/-- What follows the given characters at the start of a text. -/
def after? : List Char → List Char → Option (List Char)
  | [], s => some s
  | _ :: _, [] => none
  | a :: as, c :: s => if a = c then after? as s else none

theorem eq_append_of_after? {start s rest : List Char} (h : after? start s = some rest) :
    s = start ++ rest := by
  induction start generalizing s with
  | nil => simpa [after?] using h
  | cons a start ih =>
    cases s with
    | nil => simp [after?] at h
    | cons c s =>
      by_cases hc : a = c
      · simp only [after?, hc, if_true] at h
        simp [hc, ih h]
      · simp [after?, hc] at h

/-- The rest of a call after its specifier: the quote, blanks and the bracket, and what
follows. -/
def closing? : List Char → Option (List Char × List Char)
  | [] => none
  | q :: s =>
    if isQuote q then
      match s.dropWhile Text.isBlank with
      | ')' :: rest => some (q :: s.takeWhile Text.isBlank ++ [')'], rest)
      | _ => none
    else none

theorem eq_append_of_closing? {s closing rest : List Char}
    (h : closing? s = some (closing, rest)) :
    s = closing ++ rest := by
  cases s with
  | nil => simp [closing?] at h
  | cons q s =>
    by_cases hq : isQuote q = true
    · simp only [closing?, hq, if_true] at h
      split at h
      · next tail htail =>
        simp only [Option.some.injEq, Prod.mk.injEq] at h
        obtain ⟨rfl, rfl⟩ := h
        have := List.takeWhile_append_dropWhile (p := Text.isBlank) (l := s)
        rw [htail] at this
        simp [this]
      · simp at h
    · simp [closing?, hq] at h

/-- A specifier and the rest of its call: one or more characters other than quotes. -/
def specifier? (opening s : List Char) : Option Call :=
  let specifier := s.takeWhile fun c => !isQuote c
  if specifier.isEmpty then none
  else
    (closing? (s.dropWhile fun c => !isQuote c)).map fun (closing, rest) =>
      ⟨opening, specifier, closing, rest⟩

/-- The call that a text starts with. -/
def call? (s : List Char) : Option Call :=
  match after? keyword s with
  | none => none
  | some s₁ =>
    let gap := s₁.takeWhile Text.isBlank
    match s₁.dropWhile Text.isBlank with
    | '(' :: s₂ =>
      let innerGap := s₂.takeWhile Text.isBlank
      match s₂.dropWhile Text.isBlank with
      | q :: s₃ =>
        if isQuote q then specifier? (keyword ++ gap ++ '(' :: innerGap ++ [q]) s₃ else none
      | [] => none
    | _ => none

/-- The text of a call. -/
def Call.text (c : Call) : List Char := c.opening ++ c.specifier ++ c.closing

theorem specifier?_eq {opening s : List Char} {c : Call} (h : specifier? opening s = some c) :
    c.text ++ c.rest = opening ++ s ∧ c.opening = opening := by
  simp only [specifier?] at h
  split at h
  · simp at h
  · simp only [Option.map_eq_some_iff, Prod.exists] at h
    obtain ⟨closing, rest, hclose, rfl⟩ := h
    have hs := List.takeWhile_append_dropWhile (p := fun c => !isQuote c) (l := s)
    rw [eq_append_of_closing? hclose] at hs
    simp only [Call.text, List.append_assoc, and_true]
    rw [hs]

theorem eq_append_of_call? {s : List Char} {c : Call} (h : call? s = some c) :
    s = c.text ++ c.rest := by
  simp only [call?] at h
  split at h
  · simp at h
  · next s₁ h₁ =>
    split at h
    · next s₂ h₂ =>
      split at h
      · next q s₃ h₃ =>
        split at h
        · have hgap := List.takeWhile_append_dropWhile (p := Text.isBlank) (l := s₁)
          have hinner := List.takeWhile_append_dropWhile (p := Text.isBlank) (l := s₂)
          rw [h₂] at hgap
          rw [h₃] at hinner
          rw [(specifier?_eq h).1, eq_append_of_after? h₁]
          simp only [List.append_assoc, List.cons_append, List.nil_append]
          rw [hinner, hgap]
        · simp at h
      · simp at h
    · simp at h

theorem opening_length_of_call? {s : List Char} {c : Call} (h : call? s = some c) :
    0 < c.opening.length := by
  simp only [call?] at h
  split at h
  · simp at h
  · split at h
    · split at h
      · split at h
        · rw [(specifier?_eq h).2]
          simp [keyword]
        · simp at h
      · simp at h
    · simp at h

theorem rest_length_of_call? {s : List Char} {c : Call} (h : call? s = some c) :
    c.rest.length < s.length := by
  have hs := congrArg List.length (eq_append_of_call? h)
  have ho := opening_length_of_call? h
  simp only [Call.text, List.length_append] at hs
  omega

/-! ## All calls -/

/-- A source divided at the specifiers of its calls. -/
structure Cuts where
  /-- The specifiers, each with the text between the one before it and itself. -/
  parts : List (List Char × List Char)
  /-- The text after the last specifier. -/
  tail : List Char
  deriving DecidableEq, Repr, Inhabited

namespace Cuts

/-- Put a text in front. -/
def prepend (s : List Char) (cuts : Cuts) : Cuts :=
  match cuts.parts with
  | [] => ⟨[], s ++ cuts.tail⟩
  | (before, specifier) :: parts => ⟨(s ++ before, specifier) :: parts, cuts.tail⟩

/-- A word can start after a character. -/
def startsWord (last : Option Char) : Bool := !last.any Text.isWord

/-- Divide the source that follows a character. -/
def scan (last : Option Char) (s : List Char) : Cuts :=
  match s with
  | [] => ⟨[], []⟩
  | c :: s =>
    if startsWord last then
      match _h : call? (c :: s) with
      | some call =>
        let following := (scan (some ')') call.rest).prepend call.closing
        ⟨(call.opening, call.specifier) :: following.parts, following.tail⟩
      | none => (scan (some c) s).prepend [c]
    else (scan (some c) s).prepend [c]
termination_by s.length
decreasing_by
  · exact rest_length_of_call? _h
  · simp
  · simp

/-- Divide a source. -/
def of (source : String) : Cuts := scan none source.toList

/-- The parts put together, with each specifier written as the given function says. -/
def textWith (write : List Char → List Char) (cuts : Cuts) : List Char :=
  (cuts.parts.flatMap fun (before, specifier) => before ++ write specifier) ++ cuts.tail

/-- The parts put together. -/
def text (cuts : Cuts) : List Char := cuts.textWith id

theorem text_prepend (s : List Char) (cuts : Cuts) :
    (cuts.prepend s).text = s ++ cuts.text := by
  unfold prepend
  split <;> simp_all [text, textWith]

theorem text_scan (last : Option Char) (s : List Char) : (scan last s).text = s := by
  fun_induction scan last s with
  | case1 => simp [text, textWith]
  | case2 last c s _ call h following ih =>
    have hfollowing : following.text = call.closing ++ call.rest := by
      simp only [following, text_prepend, ih]
    rw [eq_append_of_call? h]
    simp only [text, textWith, id_eq] at hfollowing ⊢
    simp [Call.text, hfollowing]
  | case3 last c s _ _ ih => simp [text_prepend, ih]
  | case4 last c s _ ih => simp [text_prepend, ih]

theorem text_of (source : String) : (of source).text = source.toList :=
  text_scan none source.toList

/-- The specifiers, in the order of the source. -/
def specifiers (cuts : Cuts) : List String := cuts.parts.map fun part => String.ofList part.2

end Cuts

/-- A specifier and where it stands in its source, in bytes. -/
structure Reference where
  start : Nat
  stop : Nat
  specifier : String
  deriving DecidableEq, Repr, Inhabited

/-- The specifiers of some parts of a source that start at an offset. -/
def locate (offset : Nat) : List (List Char × List Char) → List Reference
  | [] => []
  | (before, specifier) :: parts =>
    let start := offset + Text.byteLength before
    let stop := start + Text.byteLength specifier
    ⟨start, stop, String.ofList specifier⟩ :: locate stop parts

/-- The references of a source, in order. -/
def references (source : String) : List Reference := locate 0 (Cuts.of source).parts

end WebBundler.Script
