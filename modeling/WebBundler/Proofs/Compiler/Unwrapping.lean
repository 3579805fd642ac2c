import WebBundler.Compiler
import WebBundler.Proofs.Json.RoundTrip
set_option autoImplicit false

/-!
# Wrapped modules can be read back

A wrapped module starts with two JSON values that end by themselves and stops with a fixed text,
so the body between them needs no marks: it may hold quotes, braces or the text of another
wrapped module.  `Wrapping.unwrap?` reads the three parts with the reader of JSON documents, and
`wrapped_modules_read_back` says that it recovers them.

What the printer writes is read back whatever text is behind it (`readFirst?_compress`).
-/

namespace WebBundler

namespace Text

/-- A text that ends with the given one, less that end. -/
def dropSuffix? (suffix s : String) : Option String :=
  if endsWith s suffix then some
    (String.ofList (s.toList.take (s.toList.length - suffix.toList.length)))
  else none

theorem dropPrefix?_append (start rest : String) :
    dropPrefix? start (start ++ rest) = some rest := by
  have hprefix : start.toList.isPrefixOf (start ++ rest).toList = true := by
    rw [String.toList_append, List.isPrefixOf_iff_prefix]
    exact List.prefix_append _ _
  unfold dropPrefix?
  rw [if_pos hprefix, String.toList_append, ← String.length_toList, List.drop_left,
    String.ofList_toList]

theorem dropSuffix?_append (front suffix : String) :
    dropSuffix? suffix (front ++ suffix) = some front := by
  have hsuffix : endsWith (front ++ suffix) suffix = true := by
    unfold endsWith
    rw [String.toList_append, List.isSuffixOf_iff_suffix]
    exact List.suffix_append _ _
  unfold dropSuffix?
  rw [if_pos hsuffix, String.toList_append, List.length_append, Nat.add_sub_cancel,
    List.take_left, String.ofList_toList]

end Text

namespace Json

/-- The value that a text starts with, and what follows it. -/
def readFirst? (s : String) : Option (Json × String) :=
  (readValue (2 * s.toList.length + 2) maxDepth s.toList).map fun (value, rest) =>
    (value, String.ofList rest)

theorem readFirst?_compress {j : Json} (h : j.fits maxDepth = true) (rest : String) :
    readFirst? (j.compress ++ rest) = some (j.sorted, rest) := by
  have hread := (readsBack (2 * (j.compress ++ rest).toList.length + 2)).value j h
    (by rw [String.toList_append, List.length_append]; omega) rest.toList
  unfold readFirst?
  rw [← String.toList_append] at hread
  rw [hread, Option.map_some]
  dsimp only
  rw [String.ofList_toList]

theorem readFirst?_quote (s rest : String) :
    readFirst? (quote s ++ rest) = some (.str s, rest) := by
  have hread := readFirst?_compress (j := .str s) rfl rest
  rwa [compress, sorted] at hread

theorem readFirst?_ofTexts (texts : List String) (rest : String) :
    readFirst? ((ofTexts texts).compress ++ rest) = some (ofTexts texts, rest) := by
  have hread := readFirst?_compress (fits_ofTexts (by decide) texts) rest
  rwa [sorted_ofTexts] at hread

/-- The texts of a list of texts. -/
def texts? (j : Json) : Option (List String) := j.items?.bind (·.mapM text?)

theorem texts?_ofTexts (texts : List String) : (ofTexts texts).texts? = some texts := by
  show (texts.map Json.str).mapM text? = some texts
  induction texts with
  | nil => rfl
  | cons text texts ih => simp [List.mapM_cons, ih, text?]

end Json

namespace Wrapping

/-! ## The parts of a wrapped module -/

/-- The name, the requirements and the body of a wrapped module. -/
def unwrap? (text : String) : Option (QueryPath × List QueryPath × String) := do
  let afterCall ← Text.dropPrefix? "Cube(" text
  let (name, afterName) ← Json.readFirst? afterCall
  let beforeRequires ← Text.dropPrefix? ", " afterName
  let (requires, afterRequires) ← Json.readFirst? beforeRequires
  let beforeBody ← Text.dropPrefix? bodyOpening afterRequires
  let body ← Text.dropSuffix? bodyClosing beforeBody
  return (⟨← name.text?⟩, (← requires.texts?).map QueryPath.mk, body)

/-- The text that the body of a module exports. -/
def exported? (body : String) : Option String := do
  let literal ← Text.dropSuffix? ";" (← Text.dropPrefix? "module.exports = " body)
  (← Json.parse? literal).text?

/-- Each part of a wrapped module is read back. -/
theorem unwrap?_wrap (path : QueryPath) (requires : List QueryPath) (body : String) :
    unwrap? (wrap path requires body) = some (path, requires, body) := by
  have hpaths : (requires.map QueryPath.text).map QueryPath.mk = requires := by
    rw [List.map_map]
    exact List.map_id' requires
  unfold unwrap? wrap
  rw [QueryPath.arr_map_toJson]
  simp only [String.append_assoc, Text.dropPrefix?_append, Json.readFirst?_quote,
    Json.readFirst?_ofTexts, Text.dropSuffix?_append, Json.texts?_ofTexts, Json.text?,
      Option.bind_eq_bind, Option.bind_some, hpaths]
  rfl

theorem exported?_exportText (source : String) :
    exported? (exportText source) = some source := by
  unfold exported? exportText
  rw [String.append_assoc, Text.dropPrefix?_append]
  simp only [Option.bind_eq_bind, Option.bind_some, Text.dropSuffix?_append, Json.parse?_quote]
  rfl

/-- **Wrapped modules can be read back.**  One reader recovers the name, the requirements and
the body of every wrapped module, so no two are wrapped alike; and the body that the compiler
makes of a stylesheet or a template exports a literal that is read as the text of its source. -/
theorem wrapped_modules_read_back :
    (∀ path requires body, unwrap? (wrap path requires body) = some (path, requires, body)) ∧
      (∀ path requires body path' requires' body',
        wrap path requires body = wrap path' requires' body' ↔
        path = path' ∧ requires = requires' ∧ body = body') ∧
      ∀ request source,
        unwrap? (Compiler.style request source).wrappedCode =
          some (request.path, [], exportText source) ∧
          unwrap? (Compiler.template request source).wrappedCode =
            some (request.path, [], exportText source) ∧
          (Compiler.template request source).code = exportText source ∧
          exported? (exportText source) = some source := by
  refine ⟨unwrap?_wrap, ?_, ?_⟩
  · intro path requires body path' requires' body'
    constructor
    · intro hsame
      have hread := congrArg unwrap? hsame
      rw [unwrap?_wrap, unwrap?_wrap] at hread
      cases hread
      exact ⟨rfl, rfl, rfl⟩
    · rintro ⟨rfl, rfl, rfl⟩
      rfl
  · intro request source
    exact ⟨unwrap?_wrap _ _ _, unwrap?_wrap _ _ _, rfl, exported?_exportText source⟩

end Wrapping

end WebBundler
