import Mathlib.Data.List.TakeWhile
import WebBundler.Script.Reference
set_option autoImplicit false

/-!
# Calls in a script

`IsCall` says what a call of `require` is made of, and `call?_iff` that such calls are what is
found at the start of a text, each with what follows it.

A specifier that is replaced by a text without quotes leaves a call.  It makes no other: a call
that begins further left and ends at the first quote would have to be closed by the replacement
(`Relinked.exists_call`).  So the calls of a source whose specifiers are replaced are the same
with the replacements (`scan_textWith`).
-/

namespace WebBundler.Script

/-! ## What a call is made of -/

/-- Blanks, or nothing. -/
def IsGap (s : List Char) : Prop := ∀ c ∈ s, Text.isBlank c = true

/-- What can stand between the quotes of a call. -/
structure IsSpecifier (s : List Char) : Prop where
  ne_nil : s ≠ []
  no_quote : ∀ c ∈ s, isQuote c = false

/-- The keyword, the bracket and the quote in front of a specifier. -/
def IsOpening (s : List Char) : Prop :=
  ∃ gap inner q, IsGap gap ∧ IsGap inner ∧ isQuote q = true ∧
    s = keyword ++ (gap ++ '(' :: (inner ++ [q]))

/-- The quote and the bracket behind a specifier. -/
def IsClosing (s : List Char) : Prop :=
  ∃ gap q, IsGap gap ∧ isQuote q = true ∧ s = q :: (gap ++ [')'])

/-- A call of `require`. -/
structure IsCall (c : Call) : Prop where
  opening : IsOpening c.opening
  specifier : IsSpecifier c.specifier
  closing : IsClosing c.closing

theorem isGap_takeWhile (s : List Char) : IsGap (s.takeWhile Text.isBlank) :=
  fun _ hc => List.mem_takeWhile_imp hc

theorem isBlank_of_isQuote {c : Char} (h : isQuote c = true) : Text.isBlank c = false := by
  unfold isQuote at h
  rw [Bool.or_eq_true, beq_iff_eq, beq_iff_eq] at h
  obtain rfl | rfl := h <;> decide

theorem isQuote_of_isBlank {c : Char} (h : Text.isBlank c = true) : isQuote c = false := by
  cases hq : isQuote c with
  | false => rfl
  | true => rw [isBlank_of_isQuote hq] at h; cases h

theorem isQuote_of_mem_keyword {c : Char} (h : c ∈ keyword) : isQuote c = false := by
  have hkeyword : keyword.all (!isQuote ·) = true := by decide
  simpa using List.all_eq_true.1 hkeyword c h

theorem no_quote_of_opening {gap inner : List Char} (hgap : IsGap gap) (hinner : IsGap inner) :
    ∀ c ∈ keyword ++ (gap ++ '(' :: inner), isQuote c = false := by
  intro c hc
  rw [List.mem_append, List.mem_append, List.mem_cons] at hc
  rcases hc with hc | hc | rfl | hc
  · exact isQuote_of_mem_keyword hc
  · exact isQuote_of_isBlank (hgap c hc)
  · decide
  · exact isQuote_of_isBlank (hinner c hc)

theorem no_quote_of_closing {gap : List Char} (hgap : IsGap gap) :
    ∀ c ∈ gap ++ [')'], isQuote c = false := by
  intro c hc
  rcases List.mem_append.1 hc with hc | hc
  · exact isQuote_of_isBlank (hgap c hc)
  · rw [List.mem_singleton.1 hc]
    decide

/-- What is passed over ends at the first character that is not of the class. -/
theorem span_append {p : Char → Bool} {front : List Char} {c : Char} (rest : List Char)
    (hfront : ∀ a ∈ front, p a = true) (hc : p c = false) :
    (front ++ c :: rest).takeWhile p = front ∧
      (front ++ c :: rest).dropWhile p = c :: rest := by
  rw [List.takeWhile_append_of_pos hfront, List.dropWhile_append_of_pos hfront,
    List.takeWhile_cons_of_neg (by simp [hc]), List.dropWhile_cons_of_neg (by simp [hc]),
      List.append_nil]
  exact ⟨rfl, rfl⟩

theorem after?_append (start rest : List Char) : after? start (start ++ rest) = some rest := by
  induction start with
  | nil => rfl
  | cons c start ih =>
    rw [List.cons_append, after?, if_pos rfl]
    exact ih

theorem closing?_append {closing : List Char} (h : IsClosing closing) (rest : List Char) :
    closing? (closing ++ rest) = some (closing, rest) := by
  obtain ⟨gap, q, hgap, hq, rfl⟩ := h
  obtain ⟨htake, hdrop⟩ := span_append rest hgap (by decide : Text.isBlank ')' = false)
  rw [List.cons_append, List.append_assoc, List.singleton_append, closing?, if_pos hq, htake,
    hdrop]
  rfl

/-- A specifier and the rest of its call are found as they stand. -/
theorem specifier?_append {specifier closing : List Char} (hspecifier : IsSpecifier specifier)
    (hclosing : IsClosing closing) (opening rest : List Char) :
    specifier? opening (specifier ++ (closing ++ rest)) =
      some ⟨opening, specifier, closing, rest⟩ := by
  have hclose := closing?_append hclosing rest
  obtain ⟨gap, q, -, hq, rfl⟩ := hclosing
  have hplain : ∀ c ∈ specifier, (!isQuote c) = true :=
    fun c hc => by rw [hspecifier.no_quote c hc]; rfl
  have hquote : (!isQuote q) = false := by rw [hq]; rfl
  obtain ⟨htake, hdrop⟩ := span_append (gap ++ [')'] ++ rest) hplain hquote
  unfold specifier?
  dsimp only
  rw [List.cons_append, htake, hdrop, ← List.cons_append, hclose, if_neg]
  · rfl
  · rw [List.isEmpty_iff]
    exact hspecifier.ne_nil

theorem call?_append {c : Call} (h : IsCall c) : call? (c.text ++ c.rest) = some c := by
  obtain ⟨opening, specifier, closing, rest⟩ := c
  obtain ⟨⟨gap, inner, q, hgap, hinner, hq, rfl⟩, hspecifier, hclosing⟩ := h
  dsimp only at hspecifier hclosing ⊢
  have hbracket : Text.isBlank '(' = false := by decide
  obtain ⟨htakeGap, hdropGap⟩ :=
    span_append (inner ++ q :: (specifier ++ (closing ++ rest))) hgap hbracket
  obtain ⟨htakeInner, hdropInner⟩ :=
    span_append (specifier ++ (closing ++ rest)) hinner (isBlank_of_isQuote hq)
  have htext : (Call.mk (keyword ++ (gap ++ '(' :: (inner ++ [q]))) specifier closing
      rest).text ++ rest =
      keyword ++ (gap ++ '(' :: (inner ++ q :: (specifier ++ (closing ++ rest)))) := by
    simp [Call.text]
  rw [htext, call?, after?_append]
  simp only [hdropGap, hdropInner, htakeGap, htakeInner, hq, if_true]
  rw [specifier?_append hspecifier hclosing]
  simp

theorem isClosing_of_closing? {s closing rest : List Char}
    (h : closing? s = some (closing, rest)) :
    IsClosing closing := by
  cases s with
  | nil => cases h
  | cons q s =>
    rw [closing?] at h
    split at h
    · next hq =>
      split at h
      · cases h
        exact ⟨_, q, isGap_takeWhile s, hq, rfl⟩
      · cases h
    · cases h

theorem isCall_of_specifier? {opening s : List Char} {c : Call} (hopening : IsOpening opening)
    (h : specifier? opening s = some c) : IsCall c := by
  unfold specifier? at h
  dsimp only at h
  split at h
  · cases h
  · next hne =>
    obtain ⟨⟨closing, rest⟩, hclosing, rfl⟩ := Option.map_eq_some_iff.1 h
    refine ⟨hopening, ⟨mt List.isEmpty_iff.2 hne, fun c hc => ?_⟩,
      isClosing_of_closing? hclosing⟩
    simpa using List.mem_takeWhile_imp hc

/-- What is found at the start of a text are calls, with what follows them. -/
theorem call?_iff {s : List Char} {c : Call} :
    call? s = some c ↔ IsCall c ∧ s = c.text ++ c.rest := by
  constructor
  · intro h
    refine ⟨?_, eq_append_of_call? h⟩
    unfold call? at h
    split at h
    · cases h
    · next s₁ _ =>
      dsimp only at h
      split at h
      · next s₂ _ =>
        split at h
        · next q s₃ _ =>
          split at h
          · next hq =>
            exact isCall_of_specifier? ⟨_, _, q, isGap_takeWhile s₁, isGap_takeWhile s₂, hq, by
              simp⟩ h
          · cases h
        · cases h
      · cases h
  · rintro ⟨hcall, rfl⟩
    exact call?_append hcall

/-! ## Replaced specifiers -/

/-- A text that neither begins with a blank nor closes a bracket. -/
def Holds (s : List Char) : Prop := ∃ c rest, s = c :: rest ∧ Text.isBlank c = false ∧ c ≠ ')'

/-- A text in which some specifiers are replaced, and the text with the replacements. -/
inductive Relinked : List Char → List Char → Prop where
  | nil : Relinked [] []
  | keep {s s' : List Char} (c : Char) (h : Relinked s s') : Relinked (c :: s) (c :: s')
  | swap {q : Char} {old new closing s s' : List Char} (hq : isQuote q = true)
      (hold : IsSpecifier old) (hnew : Holds new) (hclosing : IsClosing closing)
      (h : Relinked s s') :
      Relinked (q :: (old ++ (closing ++ s))) (q :: (new ++ (closing ++ s')))

namespace Relinked

variable {s s' : List Char}

theorem append_left (front : List Char) (h : Relinked s s') :
    Relinked (front ++ s) (front ++ s') := by
  induction front with
  | nil => exact h
  | cons c front ih => exact .keep c ih

/-- Behind a character comes what comes behind it in the text, or a replacement if it is a
quote. -/
theorem cases_cons {c : Char} {rest' : List Char} (h : Relinked s (c :: rest')) :
    (∃ rest, s = c :: rest ∧ Relinked rest rest') ∨
      ∃ old new closing more more', isQuote c = true ∧ IsSpecifier old ∧ Holds new ∧
        IsClosing closing ∧
        s = c :: (old ++ (closing ++ more)) ∧ rest' = new ++ (closing ++ more') := by
  generalize hchars : c :: rest' = chars at h
  cases h with
  | nil => cases hchars
  | keep d h =>
    obtain ⟨rfl, rfl⟩ := List.cons_eq_cons.1 hchars
    exact .inl ⟨_, rfl, h⟩
  | swap hq hold hnew hclosing h =>
    obtain ⟨rfl, rfl⟩ := List.cons_eq_cons.1 hchars
    exact .inr ⟨_, _, _, _, _, hq, hold, hnew, hclosing, rfl, rfl⟩

/-- In front of the first quote nothing is replaced. -/
theorem exists_of_append {front rest' : List Char} (hfront : ∀ c ∈ front, isQuote c = false)
    (h : Relinked s (front ++ rest')) : ∃ rest, s = front ++ rest ∧ Relinked rest rest' := by
  induction front generalizing s with
  | nil => exact ⟨s, rfl, h⟩
  | cons c front ih =>
    rw [List.forall_mem_cons] at hfront
    obtain ⟨more, rfl, hmore⟩ | ⟨_, _, _, _, _, hq, -⟩ := cases_cons h
    · obtain ⟨rest, rfl, hrest⟩ := ih hfront.2 hmore
      exact ⟨rest, rfl, hrest⟩
    · rw [hq] at hfront
      cases hfront.1

theorem exists_call (h : Relinked s s') {c' : Call} (hcall : call? s' = some c') :
    ∃ c, call? s = some c := by
  obtain ⟨opening, specifier, closing, rest'⟩ := c'
  obtain ⟨⟨⟨gap, inner, q, hgap, hinner, hq, hopening⟩, hspecifier,
      ⟨gap', q', hgap', hq', hclosing⟩⟩, htext⟩ :=
    call?_iff.1 hcall
  dsimp only at hopening hspecifier hclosing
  have hs' : s' = (keyword ++ (gap ++ '(' :: inner)) ++
      q :: (specifier ++ q' :: ((gap' ++ [')']) ++ rest')) := by
    rw [htext, Call.text, hopening, hclosing]
    simp
  rw [hs'] at h
  obtain ⟨t, rfl, ht⟩ := h.exists_of_append (no_quote_of_opening hgap hinner)
  obtain ⟨u, rfl, hu⟩ | ⟨old, _, closing', more, _, -, hold, -, hclosing', rfl, -⟩ :=
    cases_cons ht
  · obtain ⟨v, rfl, hv⟩ := hu.exists_of_append hspecifier.no_quote
    obtain ⟨w, rfl, hw⟩ | ⟨_, new, _, _, _, -, -, hnew, -, -, hrest⟩ := cases_cons hv
    · obtain ⟨rest, rfl, -⟩ := hw.exists_of_append (no_quote_of_closing hgap')
      refine ⟨⟨opening, specifier, closing, rest⟩,
        call?_iff.2 ⟨⟨⟨gap, inner, q, hgap, hinner, hq, hopening⟩, hspecifier,
          ⟨gap', q', hgap', hq', hclosing⟩⟩, ?_⟩⟩
      rw [Call.text, hopening, hclosing]
      simp
    · -- The replacement would have to close the bracket.
      obtain ⟨c, _, rfl, hblank, hbracket⟩ := hnew
      cases gap' with
      | nil => exact absurd (List.cons_eq_cons.1 hrest).1.symm hbracket
      | cons b gap' =>
        rw [← (List.cons_eq_cons.1 hrest).1, hgap' b List.mem_cons_self] at hblank
        cases hblank
  · refine ⟨⟨opening, old, closing', more⟩, call?_iff.2
      ⟨⟨⟨gap, inner, q, hgap, hinner, hq, hopening⟩, hold, hclosing'⟩, ?_⟩⟩
    rw [Call.text, hopening]
    simp

end Relinked

namespace Cuts

/-- A call that is found where a word can start is divided, and so is what follows it. -/
theorem scan_of_call {last : Option Char} {s : List Char} {c : Call}
    (hstart : startsWord last = true) (hcall : call? s = some c) :
    scan last s = ⟨(c.opening, c.specifier) ::
      ((scan (some ')') c.rest).prepend c.closing).parts,
        ((scan (some ')') c.rest).prepend c.closing).tail⟩ := by
  cases s with
  | nil => cases hcall
  | cons a s =>
    rw [scan, if_pos hstart]
    split
    · next call hfound =>
      obtain rfl := Option.some.inj (hcall.symm.trans hfound)
      rfl
    · next hnone =>
      rw [hcall] at hnone
      cases hnone

theorem scan_of_none {last : Option Char} {s : List Char} {c : Char}
    (hnone : startsWord last = true → call? (c :: s) = none) :
    scan last (c :: s) = (scan (some c) s).prepend [c] := by
  rw [scan]
  split
  · next hstart =>
    split
    · next call hfound =>
      rw [hnone hstart] at hfound
      cases hfound
    · rfl
  · rfl

/-- The parts with each specifier written as the given function says. -/
def mapSpecifiers (write : List Char → List Char) (cuts : Cuts) : Cuts :=
  ⟨cuts.parts.map fun part => (part.1, write part.2), cuts.tail⟩

theorem textWith_prepend (write : List Char → List Char) (s : List Char) (cuts : Cuts) :
    (cuts.prepend s).textWith write = s ++ cuts.textWith write := by
  obtain ⟨_ | ⟨⟨before, specifier⟩, parts⟩, tail⟩ := cuts <;> simp [prepend, textWith]

theorem mapSpecifiers_prepend (write : List Char → List Char) (s : List Char) (cuts : Cuts) :
    (cuts.prepend s).mapSpecifiers write = (cuts.mapSpecifiers write).prepend s := by
  obtain ⟨_ | ⟨⟨before, specifier⟩, parts⟩, tail⟩ := cuts <;> rfl

theorem textWith_cons (write : List Char → List Char) (before specifier : List Char)
    (parts : List (List Char × List Char)) (tail : List Char) :
    (Cuts.mk ((before, specifier) :: parts) tail).textWith write =
      before ++ (write specifier ++ (Cuts.mk parts tail).textWith write) := by
  simp [textWith]

theorem parts_prepend (s : List Char) (cuts : Cuts) :
    (cuts.prepend s).parts.map Prod.snd = cuts.parts.map Prod.snd := by
  obtain ⟨_ | ⟨⟨before, specifier⟩, parts⟩, tail⟩ := cuts <;> rfl

theorem isSpecifier_of_mem_scan (last : Option Char) (s : List Char) :
    ∀ specifier ∈ (scan last s).parts.map Prod.snd, IsSpecifier specifier := by
  fun_induction scan last s with
  | case1 => exact fun specifier h => absurd h List.not_mem_nil
  | case2 last c s _ call hcall following ih =>
    rw [List.map_cons, List.forall_mem_cons, parts_prepend]
    exact ⟨(call?_iff.1 hcall).1.specifier, ih⟩
  | case3 last c s _ _ ih => rwa [parts_prepend]
  | case4 last c s _ ih => rwa [parts_prepend]

/-- A function writes a specifier as it was or as a text that can stand in its place. -/
def Replaces (write : List Char → List Char) (specifier : List Char) : Prop :=
  write specifier = specifier ∨ IsSpecifier (write specifier) ∧ Holds (write specifier)

theorem relinked_scan {write : List Char → List Char} (last : Option Char) (s : List Char)
    (hwrite : ∀ specifier ∈ (scan last s).parts.map Prod.snd, Replaces write specifier) :
    Relinked s ((scan last s).textWith write) := by
  fun_induction scan last s with
  | case1 => exact .nil
  | case2 last c s _ call hcall following ih =>
    rw [List.map_cons, List.forall_mem_cons, parts_prepend] at hwrite
    obtain ⟨hthis, hlater⟩ := hwrite
    obtain ⟨⟨⟨gap, inner, q, -, -, hq, hopening⟩, hspecifier, hclosing⟩, htext⟩ :=
      call?_iff.1 hcall
    have hrest := ih hlater
    rw [textWith_cons, textWith_prepend, htext, Call.text, hopening]
    simp only [List.append_assoc, List.cons_append, List.nil_append]
    apply Relinked.append_left keyword
    apply Relinked.append_left gap
    apply Relinked.keep
    apply Relinked.append_left inner
    rcases hthis with hsame | ⟨-, hholds⟩
    · rw [hsame]
      exact .keep q ((hrest.append_left call.closing).append_left call.specifier)
    · exact .swap hq hspecifier hholds hclosing hrest
  | case3 last c s _ _ ih =>
    rw [parts_prepend] at hwrite
    rw [textWith_prepend]
    exact .keep c (ih hwrite)
  | case4 last c s _ ih =>
    rw [parts_prepend] at hwrite
    rw [textWith_prepend]
    exact .keep c (ih hwrite)

/-- The calls of what is written are those of the source with the specifiers as they are
written. -/
theorem scan_textWith {write : List Char → List Char} (last : Option Char) (s : List Char)
    (hwrite : ∀ specifier ∈ (scan last s).parts.map Prod.snd, Replaces write specifier) :
    scan last ((scan last s).textWith write) = (scan last s).mapSpecifiers write := by
  fun_induction scan last s with
  | case1 => simp [scan, textWith, mapSpecifiers]
  | case2 last c s hstart call hcall following ih =>
    rw [List.map_cons, List.forall_mem_cons, parts_prepend] at hwrite
    obtain ⟨hthis, hlater⟩ := hwrite
    obtain ⟨hisCall, -⟩ := call?_iff.1 hcall
    have hspecifier : IsSpecifier (write call.specifier) := by
      rcases hthis with hsame | ⟨hnew, -⟩
      · rw [hsame]
        exact hisCall.specifier
      · exact hnew
    have hcall' : call? (call.opening ++ (write call.specifier ++
        (call.closing ++ (scan (some ')') call.rest).textWith write))) =
        some ⟨call.opening, write call.specifier, call.closing,
          (scan (some ')') call.rest).textWith write⟩ :=
      call?_iff.2 ⟨⟨hisCall.opening, hspecifier, hisCall.closing⟩, by simp [Call.text]⟩
    rw [textWith_cons, textWith_prepend, scan_of_call hstart hcall']
    dsimp only
    rw [ih hlater, ← mapSpecifiers_prepend]
    rfl
  | case3 last c s hstart hnone ih =>
    rw [parts_prepend] at hwrite
    have hrelinked := (relinked_scan (some c) s hwrite).keep c
    have hnone' : call? (c :: (scan (some c) s).textWith write) = none := by
      rw [Option.eq_none_iff_forall_ne_some]
      intro call hcall
      obtain ⟨call', hcall'⟩ := hrelinked.exists_call hcall
      rw [hnone] at hcall'
      cases hcall'
    rw [textWith_prepend, List.singleton_append, scan_of_none fun _ => hnone', ih hwrite,
      mapSpecifiers_prepend]
  | case4 last c s hstart ih =>
    rw [parts_prepend] at hwrite
    rw [textWith_prepend, List.singleton_append, scan_of_none fun h => absurd h hstart,
      ih hwrite, mapSpecifiers_prepend]

end Cuts

end WebBundler.Script
