import WebBundler.Proofs.Compiler.Splicing
set_option autoImplicit false

/-!
# Which calls are found

An occurrence is a stretch of a source that is spelled like a call and begins where a word does.
Two of them can overlap, as in `require(' require(' ) ')`, but at one place at most one begins
(`Occurrence.In.eq_of_start`).

The references of a source are the specifiers of the occurrences that are taken from the left,
each the first one that begins where the one before it ends, or later
(`references_taken_from_left`).
-/

namespace WebBundler.Script

/-- Of the characters on both sides exactly one belongs to a word. -/
def IsWordBoundary (front behind : List Char) : Prop :=
  front.getLast?.any Text.isWord ≠ behind.head?.any Text.isWord

/-- A stretch of a source that is spelled like a call. -/
structure Occurrence where
  /-- The source up to the stretch. -/
  front : List Char
  /-- The stretch, and what follows it. -/
  call : Call
  deriving DecidableEq, Repr, Inhabited

namespace Occurrence

/-- The offset at which the stretch begins. -/
def start (o : Occurrence) : Nat := Text.byteLength o.front

/-- The offset at which the stretch ends. -/
def stop (o : Occurrence) : Nat := o.start + Text.byteLength o.call.text

/-- The specifier between the quotes. -/
def reference (o : Occurrence) : Reference where
  start := o.start + Text.byteLength o.call.opening
  stop := o.start + Text.byteLength o.call.opening + Text.byteLength o.call.specifier
  specifier := String.ofList o.call.specifier

/-- The stretch is one of a source. -/
structure In (o : Occurrence) (source : List Char) : Prop where
  stands : source = o.front ++ (o.call.text ++ o.call.rest)
  isCall : IsCall o.call
  boundary : IsWordBoundary o.front (o.call.text ++ o.call.rest)

/-- Two stretches have a character in common. -/
def Overlaps (o other : Occurrence) : Prop := o.start < other.stop ∧ other.start < o.stop

end Occurrence

/-- What is taken of a source from an offset on: the first occurrence that begins there or
later, and what is taken from its end on. -/
inductive Taken (source : List Char) : Nat → List Occurrence → Prop where
  | none {offset : Nat} (h : ∀ o : Occurrence, o.In source → o.start < offset) :
      Taken source offset []
  | next {offset : Nat} {o : Occurrence} {later : List Occurrence} (hin : o.In source)
      (hstart : offset ≤ o.start) (hfirst : ∀ other : Occurrence, other.In source →
        offset ≤ other.start → o.start ≤ other.start)
      (hlater : Taken source o.stop later) : Taken source offset (o :: later)

/-! ## Places of occurrences -/

theorem IsCall.text_eq {c : Call} (h : IsCall c) : ∃ more, c.text = 'r' :: more := by
  obtain ⟨gap, inner, q, -, -, -, hopening⟩ := h.opening
  rw [Call.text, hopening]
  exact ⟨_, rfl⟩

theorem IsCall.getLast?_text {c : Call} (h : IsCall c) (front : List Char) :
    (front ++ c.text).getLast? = some ')' := by
  obtain ⟨gap, q, -, -, hclosing⟩ := h.closing
  have htext : front ++ c.text = front ++ (c.opening ++ c.specifier ++ q :: gap) ++ [')'] := by
    rw [Call.text, hclosing]
    simp
  rw [htext, List.getLast?_concat]

/-- The keyword is a word, so a boundary in front of it is the start of one. -/
theorem isWordBoundary_iff {front rest : List Char} {c : Call} (h : IsCall c) :
    IsWordBoundary front (c.text ++ rest) ↔ Cuts.startsWord front.getLast? = true := by
  obtain ⟨more, hmore⟩ := h.text_eq
  have hword : Text.isWord 'r' = true := by decide
  unfold IsWordBoundary Cuts.startsWord
  rw [hmore, List.cons_append, List.head?_cons, Option.any_some, hword]
  simp

theorem eq_nil_of_byteLength_le {front more : List Char}
    (h : Text.byteLength (front ++ more) ≤ Text.byteLength front) : more = [] := by
  cases more with
  | nil => rfl
  | cons c more =>
    have hc := c.utf8Size_pos
    rw [Text.byteLength_append, Text.byteLength_cons] at h
    omega

namespace Occurrence

variable {o other : Occurrence} {source front s : List Char}

/-- What begins behind a text stands in what follows it. -/
theorem In.exists_gap (h : o.In (front ++ s)) (hstart : Text.byteLength front ≤ o.start) :
    ∃ gap, o.front = front ++ gap ∧ s = gap ++ (o.call.text ++ o.call.rest) := by
  rcases List.append_eq_append_iff.1 h.stands with ⟨gap, hfront, hs⟩ | ⟨gap, hfront, hs⟩
  · exact ⟨gap, hfront, hs⟩
  · rw [hfront] at hstart
    have hgap : gap = [] := eq_nil_of_byteLength_le hstart
    subst hgap
    exact ⟨[], by simp [hfront], hs.symm⟩

theorem In.eq_of_start (h : o.In source) (hother : other.In source)
    (hstart : o.start = other.start) :
    o = other := by
  have hstands := h.stands ▸ hother
  obtain ⟨gap, hfront, htext⟩ := hstands.exists_gap (Nat.le_of_eq hstart)
  have hgap : gap = [] := by
    have hlength : Text.byteLength (o.front ++ gap) ≤ Text.byteLength o.front := by
      rw [← hfront]
      exact Nat.le_of_eq hstart.symm
    exact eq_nil_of_byteLength_le hlength
  subst hgap
  have hcall : some o.call = some other.call := by
    rw [← call?_iff.2 ⟨h.isCall, rfl⟩, htext]
    exact call?_iff.2 ⟨hother.isCall, rfl⟩
  obtain ⟨_, _⟩ := o
  obtain ⟨_, _⟩ := other
  rw [List.append_nil] at hfront
  cases hfront
  cases hcall
  rfl

theorem In.start_lt_stop (h : o.In source) : o.start < o.stop := by
  obtain ⟨more, hmore⟩ := h.isCall.text_eq
  have hr := ('r').utf8Size_pos
  rw [stop, hmore, Text.byteLength_cons]
  omega

end Occurrence

/-! ## What is taken -/

namespace Taken

variable {source : List Char} {offset earlier : Nat} {taken taken' : List Occurrence}

/-- Where no occurrence begins, nothing is taken. -/
theorem skip (h : Taken source offset taken) (hle : earlier ≤ offset)
    (hnone : ∀ o : Occurrence, o.In source → earlier ≤ o.start → offset ≤ o.start) :
    Taken source earlier taken := by
  cases h with
  | none h =>
    refine .none fun o ho => Nat.lt_of_not_le fun hstart => ?_
    exact absurd (h o ho) (Nat.not_lt.2 (hnone o ho hstart))
  | next hin hstart hfirst hlater =>
    exact .next hin (Nat.le_trans hle hstart)
      (fun other hother hbegin => hfirst other hother (hnone other hother hbegin)) hlater

theorem unique (h : Taken source offset taken) (h' : Taken source offset taken') :
    taken = taken' := by
  induction h generalizing taken' with
  | none h =>
    cases h' with
    | none => rfl
    | next hin hstart => exact absurd (h _ hin) (Nat.not_lt.2 hstart)
  | next hin hstart hfirst _ ih =>
    cases h' with
    | none h => exact absurd (h _ hin) (Nat.not_lt.2 hstart)
    | next hin' hstart' hfirst' hlater' =>
      have hsame :=
        hin.eq_of_start hin' (Nat.le_antisymm (hfirst _ hin' hstart') (hfirst' _ hin hstart))
      subst hsame
      rw [ih hlater']

theorem in_of_mem (h : Taken source offset taken) :
    ∀ o ∈ taken, o.In source ∧ offset ≤ o.start := by
  induction h with
  | none => exact fun o ho => absurd ho List.not_mem_nil
  | next hin hstart _ _ ih =>
    refine List.forall_mem_cons.2 ⟨⟨hin, hstart⟩, fun o ho => ⟨(ih o ho).1, ?_⟩⟩
    exact Nat.le_trans hstart (Nat.le_trans (Nat.le_of_lt hin.start_lt_stop) (ih o ho).2)

theorem ordered (h : Taken source offset taken) :
    taken.Pairwise fun o later => o.stop ≤ later.start := by
  induction h with
  | none => exact List.Pairwise.nil
  | next _ _ _ hlater ih =>
    exact List.pairwise_cons.2 ⟨fun o ho => (hlater.in_of_mem o ho).2, ih⟩

/-- An occurrence that is not taken begins inside one that is. -/
theorem mem_or_overlaps (h : Taken source offset taken) {o : Occurrence} (ho : o.In source)
    (hstart : offset ≤ o.start) :
    o ∈ taken ∨ ∃ e ∈ taken, e.start < o.start ∧ o.Overlaps e := by
  induction h with
  | none h => exact absurd (h o ho) (Nat.not_lt.2 hstart)
  | @next _ e later hin _ hfirst _ ih =>
    rcases Nat.eq_or_lt_of_le (hfirst o ho hstart) with hsame | hbefore
    · rw [hin.eq_of_start ho hsame]
      exact .inl List.mem_cons_self
    · rcases Nat.lt_or_ge o.start e.stop with hinside | hbehind
      · have hstop := Nat.lt_trans hbefore ho.start_lt_stop
        exact .inr ⟨e, List.mem_cons_self, hbefore, hinside, hstop⟩
      · rcases ih hbehind with hmem | ⟨e', he', hoverlaps⟩
        · exact .inl (List.mem_cons_of_mem _ hmem)
        · exact .inr ⟨e', List.mem_cons_of_mem _ he', hoverlaps⟩

end Taken

/-! ## What is found -/

theorem locate_prepend (offset : Nat) (s : List Char) (cuts : Cuts) :
    locate offset (cuts.prepend s).parts = locate (offset + Text.byteLength s) cuts.parts := by
  obtain ⟨_ | ⟨⟨before, specifier⟩, parts⟩, tail⟩ := cuts
  · rfl
  · simp only [Cuts.prepend, locate, Text.byteLength_append, Nat.add_assoc]

/-- Past a character at which no occurrence begins, the same is taken. -/
theorem Taken.of_cons {front s : List Char} {c : Char} {taken : List Occurrence}
    (h : Taken (front ++ [c] ++ s) (Text.byteLength (front ++ [c])) taken)
    (hnone : ∀ o : Occurrence, o.In (front ++ c :: s) → o.front ≠ front) :
    Taken (front ++ c :: s) (Text.byteLength front) taken := by
  rw [List.append_assoc, List.singleton_append] at h
  refine h.skip ?_ fun o ho hstart => ?_
  · rw [Text.byteLength_append]
    exact Nat.le_add_right _ _
  · obtain ⟨_ | ⟨d, gap⟩, hfront, hs⟩ := ho.exists_gap hstart
    · rw [List.append_nil] at hfront
      exact absurd hfront (hnone o ho)
    · rw [List.cons_append, List.cons_eq_cons] at hs
      rw [Occurrence.start, hfront, hs.1, List.append_cons front d gap,
        Text.byteLength_append (front ++ [d])]
      exact Nat.le_add_right _ _

/-- The parts of a source behind a text are cut out by what is taken from there on. -/
theorem exists_taken_scan (last : Option Char) (s front : List Char)
    (hlast : front.getLast? = last) :
    ∃ taken, Taken (front ++ s) (Text.byteLength front) taken ∧
      locate (Text.byteLength front) (Cuts.scan last s).parts =
        taken.map Occurrence.reference := by
  fun_induction Cuts.scan last s generalizing front with
  | case1 =>
    refine ⟨[], .none fun o ho => Nat.lt_of_not_le fun hstart => ?_, rfl⟩
    obtain ⟨gap, -, hs⟩ := ho.exists_gap hstart
    obtain ⟨more, hmore⟩ := ho.isCall.text_eq
    rw [hmore] at hs
    simp at hs
  | case2 last c s hstart call hcall following ih =>
    obtain ⟨hisCall, htext⟩ := call?_iff.1 hcall
    obtain ⟨taken, htaken, hlocate⟩ := ih (front ++ call.text) (hisCall.getLast?_text front)
    rw [List.append_assoc, ← htext] at htaken
    have hin : Occurrence.In ⟨front, call⟩ (front ++ c :: s) := by
      refine ⟨by rw [htext], hisCall, (isWordBoundary_iff hisCall).2 ?_⟩
      rwa [hlast]
    have hstop : Text.byteLength (front ++ call.text) = Occurrence.stop ⟨front, call⟩ :=
      Text.byteLength_append _ _
    rw [hstop] at htaken hlocate
    refine ⟨⟨front, call⟩ :: taken, .next hin (Nat.le_refl _) (fun _ _ hbegin => hbegin) htaken,
      ?_⟩
    have hoffset : Text.byteLength front + Text.byteLength call.opening +
        Text.byteLength call.specifier + Text.byteLength call.closing =
          Occurrence.stop ⟨front, call⟩ := by
      simp only [Occurrence.stop, Occurrence.start, Call.text, Text.byteLength_append,
        Nat.add_assoc]
    rw [locate, List.map_cons, locate_prepend, hoffset, hlocate]
    rfl
  | case3 last c s _ hnone ih =>
    obtain ⟨taken, htaken, hlocate⟩ := ih (front ++ [c]) List.getLast?_concat
    refine ⟨taken, htaken.of_cons fun o ho hfront => ?_, ?_⟩
    · have htext := ho.stands
      rw [hfront, List.append_cancel_left_eq] at htext
      rw [call?_iff.2 ⟨ho.isCall, htext⟩] at hnone
      cases hnone
    · rw [locate_prepend, ← Text.byteLength_append, hlocate]
  | case4 last c s hstart ih =>
    obtain ⟨taken, htaken, hlocate⟩ := ih (front ++ [c]) List.getLast?_concat
    refine ⟨taken, htaken.of_cons fun o ho hfront => hstart ?_, ?_⟩
    · rw [← hlast, ← hfront]
      exact (isWordBoundary_iff ho.isCall).1 ho.boundary
    · rw [locate_prepend, ← Text.byteLength_append, hlocate]

/-- **The references are the specifiers of the calls that are taken from the left.**  There is
exactly one way of taking occurrences, each the first that begins where the one before it ends,
or later.  The references are theirs, in this order: spans of the source between two quotes, one
behind the other.  An occurrence that is not taken begins inside one that is. -/
theorem references_taken_from_left (source : String) :
    ∃ taken : List Occurrence,
      (∀ other, Taken source.toList 0 other ↔ other = taken) ∧
      references source = taken.map Occurrence.reference ∧
      Spans (Text.encode source) (references source) ∧
      (taken.Pairwise fun o later => o.stop ≤ later.start) ∧
      ∀ o : Occurrence, o.In source.toList →
        o ∈ taken ∨ ∃ earlier ∈ taken, earlier.start < o.start ∧ o.Overlaps earlier := by
  obtain ⟨taken, htaken, hlocate⟩ := exists_taken_scan none source.toList [] rfl
  rw [List.nil_append, Text.byteLength_nil] at htaken
  refine ⟨taken, fun other => ⟨fun hother => hother.unique htaken, ?_⟩, hlocate,
    spans_references source, htaken.ordered, fun o ho =>
      htaken.mem_or_overlaps ho (Nat.zero_le _)⟩
  rintro rfl
  exact htaken

/-- The second call begins inside the specifier of the first one. -/
example : references "require(' require(' ) ')" = [⟨9, 18, " require("⟩] := by decide +kernel

end WebBundler.Script
