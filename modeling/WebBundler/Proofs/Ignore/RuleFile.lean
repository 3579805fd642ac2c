import Mathlib.Data.List.Induction
import Mathlib.Data.List.TakeWhile
import WebBundler.Ignore.Classification
import WebBundler.Proofs.Path.Canonical
set_option autoImplicit false

/-!
# Files of rules

A file of rules is read line by line, and which section is open is carried along.  The two lists
that come out are described here without it: a line is a rule of the section whose header is the
nearest one before it (`rulesIn`).

In the other direction, `Writes` describes all lines that write two lists of rules, however
often the sections are opened again, and `IsText` all texts of such lines.  Reading takes each
of these texts back to the two lists (`rule_file_read_back`).
-/

namespace WebBundler

namespace Text

/-! ## Lines -/

/-- A line without the carriage return before its line feed. -/
def dropReturn (line : List Char) : List Char :=
  if line.getLast? = some '\r' then line.dropLast else line

/-- The lines that the pieces between line feeds are: nothing behind the last line feed is no
line. -/
def linesOf : List (List Char) → List (List Char)
  | [] => []
  | [rest] => if rest = [] then [] else [rest]
  | piece :: next :: pieces => dropReturn piece :: linesOf (next :: pieces)

/-- The lines of a text.  A line ends with a line feed, which a carriage return may precede; the
last one may go without. -/
def lines (s : String) : List String := (linesOf (splitOn '\n' s.toList)).map String.ofList

theorem strip_append {p : Char → Bool} (s : List Char) {after : List Char}
    (h : ∀ c ∈ after, p c = true) :
    strip p (s ++ after) = strip p s := by
  have hafter : after.dropWhile p = [] := List.dropWhile_eq_nil_iff.2 h
  have hreverse : after.reverse.dropWhile p = [] := by
    refine List.dropWhile_eq_nil_iff.2 fun c hc => h c (List.mem_reverse.1 hc)
  unfold strip dropStart dropEnd
  rw [List.dropWhile_append]
  split
  · next hempty => rw [hafter, List.isEmpty_iff.1 hempty]
  · rw [List.reverse_append, List.dropWhile_append, hreverse]
    rfl

theorem strip_padded {p : Char → Bool} {before after : List Char} (s : List Char)
    (h : ∀ c ∈ before ++ after, p c = true) : strip p (before ++ s ++ after) = strip p s := by
  rw [List.forall_mem_append] at h
  rw [strip_append _ h.2]
  unfold strip dropStart
  rw [List.dropWhile_append_of_pos h.1]

theorem trim_append_return (line : List Char) :
    trim (String.ofList (line ++ ['\r'])) = trim (String.ofList line) := by
  have hblank : ∀ c ∈ ['\r'], isBlank c = true := List.forall_mem_singleton.2 rfl
  unfold trim
  rw [String.toList_ofList, String.toList_ofList, strip_append line hblank]

theorem trim_dropReturn (line : List Char) :
    trim (String.ofList (dropReturn line)) = trim (String.ofList line) := by
  unfold dropReturn
  split
  · next hlast =>
    obtain ⟨front, rfl⟩ := List.getLast?_eq_some_iff.1 hlast
    rw [List.dropLast_concat, trim_append_return]
  · rfl

end Text

namespace ProjectRules

/-! ## Sections and rules -/

/-- The sections of a file of rules. -/
inductive RuleSection where
  | ignore
  | skip
  deriving DecidableEq, Repr, Inhabited

/-- The line that opens a section. -/
def RuleSection.header : RuleSection → String
  | .ignore => "[ignore]"
  | .skip => "[skip]"

/-- The section that a line opens. -/
def header? (line : String) : Option RuleSection :=
  if line = "[ignore]" then some .ignore else if line = "[skip]" then some .skip else none

/-- The list of a section. -/
def FileLines.rules (lists : FileLines) : RuleSection → List String
  | .ignore => lists.ignore
  | .skip => lists.skip

/-- One more rule at the end of the list of a section. -/
def FileLines.push (lists : FileLines) (part : RuleSection) (rule : String) : FileLines :=
  match part with
  | .ignore => ⟨lists.ignore ++ [rule], lists.skip⟩
  | .skip => ⟨lists.ignore, lists.skip ++ [rule]⟩

/-- The lists of one file behind those of another. -/
def FileLines.append (lists more : FileLines) : FileLines :=
  ⟨lists.ignore ++ more.ignore, lists.skip ++ more.skip⟩

/-- A line, without blanks around it, that is a rule: no blank line, no comment and no
header. -/
structure IsRule (line : String) : Prop where
  ne_empty : line ≠ ""
  no_comment : Text.startsWith line "#" = false
  no_header : header? line = none

instance (line : String) : Decidable (IsRule line) :=
  decidable_of_iff (line ≠ "" ∧ Text.startsWith line "#" = false ∧ header? line = none)
    ⟨fun h => ⟨h.1, h.2.1, h.2.2⟩, fun h => ⟨h.1, h.2, h.3⟩⟩

/-- The section that is open behind some lines: that of the nearest header, and `[ignore]`
before the first one. -/
def openAfter (lines : List String) : RuleSection :=
  (lines.filterMap header?).getLast?.getD .ignore

/-- The rules among some lines whose nearest header before them is that of a section, in their
order. -/
def rulesIn (part : RuleSection) (lines : List String) : List String :=
  (lines.zipIdx.filter fun (line, i) => IsRule line ∧ openAfter (lines.take i) = part).map (·.1)

/-! ## One line -/

/-- The state of the reader while a section is open. -/
def reading (lists : FileLines) (part : RuleSection) : FileLines × Bool := (lists, part = .skip)

theorem header?_header (part : RuleSection) :
    header? part.header = some part := by cases part <;> rfl

theorem addLine_rule (lists : FileLines) (part : RuleSection) {line : String}
    (h : IsRule line) :
    addLine (reading lists part) line = reading (lists.push part line) part := by
  have hsilent : ¬ (line = "" ∨ Text.startsWith line "#" = true) := by
    rw [not_or, Bool.not_eq_true]
    exact ⟨h.ne_empty, h.no_comment⟩
  have hheader := h.no_header
  unfold header? at hheader
  split at hheader
  · cases hheader
  · next hignore =>
    split at hheader
    · cases hheader
    · next hskip =>
      unfold addLine reading
      dsimp only
      rw [if_neg hsilent, if_neg hignore, if_neg hskip]
      cases part <;> rfl

theorem addLine_header (lists : FileLines) (part next : RuleSection) :
    addLine (reading lists part) next.header = reading lists next := by
  cases next <;> rfl

theorem addLine_silent (state : FileLines × Bool) {line : String}
    (h : line = "" ∨ Text.startsWith line "#" = true) :
    addLine state line = state := by
  unfold addLine
  dsimp only
  rw [if_pos h]

theorem cases_of_not_isRule {line : String} (h : ¬ IsRule line) :
    (∃ part : RuleSection, line = part.header) ∨
      (header? line = none ∧ (line = "" ∨ Text.startsWith line "#" = true)) := by
  cases hheader : header? line with
  | some part =>
    left
    unfold header? at hheader
    split at hheader
    · next hignore => exact ⟨.ignore, hignore⟩
    · split at hheader
      · next hskip => exact ⟨.skip, hskip⟩
      · cases hheader
  | none =>
    refine .inr ⟨rfl, ?_⟩
    by_contra hneither
    rw [not_or, Bool.not_eq_true] at hneither
    exact h ⟨hneither.1, hneither.2, hheader⟩

/-! ## All lines -/

theorem openAfter_concat (front : List String) (line : String) :
    openAfter (front ++ [line]) = (header? line).getD (openAfter front) := by
  unfold openAfter
  rw [List.filterMap_append]
  cases hheader : header? line with
  | none => rw [List.filterMap_cons_none hheader, List.filterMap_nil, List.append_nil]; rfl
  | some part =>
    rw [List.filterMap_cons_some hheader, List.filterMap_nil, List.getLast?_concat]; rfl

/-- The last line adds nothing to the section of another one. -/
theorem rulesIn_concat (part : RuleSection) (front : List String) (line : String) :
    rulesIn part (front ++ [line]) =
      rulesIn part front ++ if IsRule line ∧ openAfter front = part then [line] else [] := by
  have hfront : front.zipIdx.filter (fun (l, i) => IsRule l ∧
      openAfter ((front ++ [line]).take i) = part) =
      front.zipIdx.filter (fun (l, i) => IsRule l ∧ openAfter (front.take i) = part) := by
    refine List.filter_congr fun entry hentry => ?_
    obtain ⟨l, i⟩ := entry
    have hi : i ≤ front.length := by
      have hlt := (List.mem_zipIdx hentry).2.1
      omega
    dsimp only
    rw [List.take_append_of_le_length hi]
  unfold rulesIn
  rw [List.zipIdx_append, List.filter_append, List.map_append, hfront]
  congr 1
  simp only [Nat.zero_add, List.zipIdx_cons, List.zipIdx_nil, List.filter_cons, List.filter_nil,
    List.take_left, decide_eq_true_eq]
  split <;> rfl

/-- What the reader has when it comes to the end of some lines. -/
theorem foldl_addLine (lines : List String) :
    lines.foldl addLine (reading ⟨[], []⟩ .ignore) =
      reading ⟨rulesIn .ignore lines, rulesIn .skip lines⟩ (openAfter lines) := by
  induction lines using List.reverseRecOn with
  | nil => rfl
  | append_singleton front line ih =>
    rw [List.foldl_append, ih, List.foldl_cons, List.foldl_nil, openAfter_concat,
      rulesIn_concat, rulesIn_concat]
    by_cases hrule : IsRule line
    · rw [addLine_rule _ _ hrule, hrule.no_header]
      cases hopen : openAfter front <;> simp [hrule, FileLines.push]
    · rw [if_neg fun h => hrule h.1, if_neg fun h => hrule h.1, List.append_nil,
        List.append_nil]
      rcases cases_of_not_isRule hrule with ⟨part, rfl⟩ | ⟨hheader, hsilent⟩
      · rw [addLine_header, header?_header]
        rfl
      · rw [addLine_silent _ hsilent, hheader]
        rfl

/-- The two sections hold each rule once. -/
theorem perm_rulesIn (lines : List String) :
    (rulesIn .ignore lines ++ rulesIn .skip lines).Perm
      (lines.filter fun line => IsRule line) := by
  induction lines using List.reverseRecOn with
  | nil => exact List.Perm.nil
  | append_singleton front line ih =>
    rw [rulesIn_concat, rulesIn_concat, List.filter_append]
    by_cases hrule : IsRule line
    · have hfilter : [line].filter (fun line => IsRule line) = [line] := by simp [hrule]
      rw [hfilter]
      refine List.Perm.trans ?_ (ih.append_right [line])
      cases hopen : openAfter front with
      | ignore =>
        simp only [hrule, and_self, if_true, reduceCtorEq, and_false, if_false, List.append_nil,
          List.append_assoc]
        exact List.Perm.append_left _ List.perm_append_comm
      | skip =>
        simp only [hrule, and_self, if_true, reduceCtorEq, and_false, if_false, List.append_nil,
          List.append_assoc]
        exact List.Perm.refl _
    · have hfilter : [line].filter (fun line => IsRule line) = [] := by simp [hrule]
      simp only [hrule, false_and, if_false, List.append_nil, hfilter]
      exact ih

theorem readRuleFile_eq (content : String) :
    readRuleFile content =
      (((Text.lines content).map Text.trim).foldl addLine (reading ⟨[], []⟩ .ignore)).1 := by
  have hlines : ∀ (pieces : List (List Char)) (state : FileLines × Bool),
      (pieces.map fun piece => Text.trim (String.ofList piece)).foldl addLine state =
        (((Text.linesOf pieces).map String.ofList).map Text.trim).foldl addLine state := by
    intro pieces state
    fun_induction Text.linesOf pieces generalizing state with
    | case1 => rfl
    | case2 => rfl
    | case3 => rfl
    | case4 piece next pieces ih =>
      simp only [List.map_cons, List.foldl_cons, Text.trim_dropReturn] at ih ⊢
      exact ih _
  unfold readRuleFile Text.lines
  exact congrArg Prod.fst (hlines _ _)

/-! ## Written files -/

/-- A line that holds a text with blanks around it. -/
def IsPadded (text line : String) : Prop :=
  ∃ before after : List Char, (∀ c ∈ before ++ after, Text.isBlank c = true ∧ c ≠ '\n') ∧
    line.toList = before ++ text.toList ++ after

/-- What can be written as a rule: one line without blanks around it, and no comment or
header. -/
structure IsPattern (rule : String) : Prop where
  isRule : IsRule rule
  trimmed : Text.trim rule = rule
  single_line : '\n' ∉ rule.toList

instance (rule : String) : Decidable (IsPattern rule) :=
  decidable_of_iff (IsRule rule ∧ Text.trim rule = rule ∧ '\n' ∉ rule.toList)
    ⟨fun h => ⟨h.1, h.2.1, h.2.2⟩, fun h => ⟨h.1, h.2, h.3⟩⟩

/-- One more rule at the start of the list of a section. -/
def FileLines.cons (lists : FileLines) (part : RuleSection) (rule : String) : FileLines :=
  match part with
  | .ignore => ⟨rule :: lists.ignore, lists.skip⟩
  | .skip => ⟨lists.ignore, rule :: lists.skip⟩

/-- Lines that write two lists of rules, from a place where a section is open: each rule stands
on a line of its own while its section is open, and headers, blank lines and comments stand
anywhere. -/
inductive Writes : RuleSection → List String → FileLines → Prop where
  | done (part : RuleSection) : Writes part [] ⟨[], []⟩
  | blank {part : RuleSection} {line : String} {lines : List String} {lists : FileLines}
      (hline : IsPadded "" line) (hrest : Writes part lines lists) :
      Writes part (line :: lines) lists
  | comment {part : RuleSection} {text line : String} {lines : List String} {lists : FileLines}
      (htext : '\n' ∉ text.toList) (hline : IsPadded ("#" ++ text) line)
      (hrest : Writes part lines lists) :
      Writes part (line :: lines) lists
  | header {part next : RuleSection} {line : String} {lines : List String} {lists : FileLines}
      (hline : IsPadded next.header line) (hrest : Writes next lines lists) :
      Writes part (line :: lines) lists
  | rule {part : RuleSection} {rule line : String} {lines : List String} {lists : FileLines}
      (hline : IsPadded rule line) (hrest : Writes part lines lists) :
      Writes part (line :: lines) (lists.cons part rule)

/-- A text of lines: each ends with a line feed, which a carriage return may precede, and the
last one may go without. -/
inductive IsText : List String → String → Prop where
  | none : IsText [] ""
  | last (line : String) : IsText [line] line
  | line {line ending text : String} {lines : List String}
      (hending : ending = "\n" ∨ ending = "\r\n") (hrest : IsText lines text) :
      IsText (line :: lines) (line ++ ending ++ text)

theorem IsPadded.trim {text line : String} (h : IsPadded text line) :
    Text.trim line = Text.trim text := by
  obtain ⟨before, after, hblank, hline⟩ := h
  unfold Text.trim
  rw [hline, Text.strip_padded _ fun c hc => (hblank c hc).1]

theorem IsPadded.single_line {text line : String} (h : IsPadded text line)
    (htext : '\n' ∉ text.toList) :
    '\n' ∉ line.toList := by
  obtain ⟨before, after, hblank, hline⟩ := h
  have hfeed : '\n' ∉ before ++ after := fun hmem => (hblank _ hmem).2 rfl
  rw [List.mem_append, not_or] at hfeed
  rw [hline, List.mem_append, List.mem_append, not_or, not_or]
  exact ⟨⟨hfeed.1, htext⟩, hfeed.2⟩

theorem mem_cons_rules {lists : FileLines} {part : RuleSection} {rule other : String} :
    other ∈ (lists.cons part rule).ignore ++ (lists.cons part rule).skip ↔
      other = rule ∨ other ∈ lists.ignore ++ lists.skip := by
  cases part
  · exact List.mem_cons
  · simp only [FileLines.cons, List.mem_append, List.mem_cons]
    exact or_left_comm

/-- The rules behind the first one are among the rules. -/
theorem forall_cons_rules {lists : FileLines} {part : RuleSection} {rule : String}
    (h : ∀ other ∈ (lists.cons part rule).ignore ++ (lists.cons part rule).skip,
      IsPattern other) :
    IsPattern rule ∧ ∀ other ∈ lists.ignore ++ lists.skip, IsPattern other :=
  ⟨h rule (mem_cons_rules.2 (.inl rfl)), fun other hother =>
    h other (mem_cons_rules.2 (.inr hother))⟩

theorem startsWith_trim_comment (text : String) :
    Text.startsWith (Text.trim ("#" ++ text)) "#" = true := by
  have hchars : ("#" ++ text).toList = '#' :: text.toList := by
    rw [String.toList_append]
    rfl
  obtain ⟨more, hmore⟩ := Text.exists_toList_trim hchars (by decide)
  unfold Text.startsWith
  rw [hmore]
  rfl

theorem trim_empty : Text.trim "" = "" := rfl

theorem trim_header (part : RuleSection) :
    Text.trim part.header = part.header := by cases part <;> rfl

theorem Writes.single_lines {part : RuleSection} {lines : List String} {lists : FileLines}
    (h : Writes part lines lists)
    (hrules : ∀ rule ∈ lists.ignore ++ lists.skip, IsPattern rule) :
    ∀ line ∈ lines, '\n' ∉ line.toList := by
  induction h with
  | done => exact List.forall_mem_nil _
  | blank hline _ ih => exact List.forall_mem_cons.2 ⟨hline.single_line (by decide), ih hrules⟩
  | comment htext hline _ ih =>
    refine List.forall_mem_cons.2 ⟨hline.single_line ?_, ih hrules⟩
    rw [String.toList_append, List.mem_append, not_or]
    exact ⟨by decide, htext⟩
  | @header _ next _ _ _ hline _ ih =>
    exact List.forall_mem_cons.2 ⟨hline.single_line (by cases next <;> decide), ih hrules⟩
  | rule hline _ ih =>
    obtain ⟨hrule, hrest⟩ := forall_cons_rules hrules
    exact List.forall_mem_cons.2 ⟨hline.single_line hrule.single_line, ih hrest⟩

/-- What is read from written lines are the lists that they write, behind what was read
before. -/
theorem Writes.foldl_addLine {part : RuleSection} {lines : List String} {lists : FileLines}
    (h : Writes part lines lists) (hrules : ∀ rule ∈ lists.ignore ++ lists.skip, IsPattern rule)
    (read : FileLines) :
    ((lines.map Text.trim).foldl addLine (reading read part)).1 = read.append lists := by
  induction h generalizing read with
  | done => simp [reading, FileLines.append]
  | blank hline _ ih =>
    rw [List.map_cons, List.foldl_cons, hline.trim, trim_empty, addLine_silent _ (.inl rfl)]
    exact ih hrules read
  | comment _ hline _ ih =>
    rw [List.map_cons, List.foldl_cons, hline.trim,
      addLine_silent _ (.inr (startsWith_trim_comment _))]
    exact ih hrules read
  | header hline _ ih =>
    rw [List.map_cons, List.foldl_cons, hline.trim, trim_header, addLine_header]
    exact ih hrules read
  | @rule part rule _ _ lists hline _ ih =>
    obtain ⟨hrule, hrest⟩ := forall_cons_rules hrules
    have hpush : (read.push part rule).append lists = read.append (lists.cons part rule) := by
      cases part <;> simp [FileLines.push, FileLines.append, FileLines.cons]
    rw [List.map_cons, List.foldl_cons, hline.trim, hrule.trimmed,
      addLine_rule _ _ hrule.isRule, ih hrest, hpush]

/-- The pieces of a text of lines are read as the lines are. -/
theorem IsText.foldl_addLine {lines : List String} {content : String} (h : IsText lines content)
    (hlines : ∀ line ∈ lines, '\n' ∉ line.toList) (state : FileLines × Bool) :
    ((Text.splitOn '\n' content.toList).map fun piece => Text.trim (String.ofList piece)).foldl
      addLine state =
      (lines.map Text.trim).foldl addLine state := by
  induction h generalizing state with
  | none => rfl
  | last line =>
    rw [Text.splitOn_of_not_mem (hlines line List.mem_cons_self), List.map_singleton,
      String.ofList_toList]
    rfl
  | @line line ending text lines hending _ ih =>
    obtain ⟨hline, hrest⟩ := List.forall_mem_cons.1 hlines
    -- A carriage return before the line feed belongs to the piece, and is trimmed.
    obtain ⟨piece, hchars, hfeed, htrim⟩ : ∃ piece : List Char,
        (line ++ ending ++ text).toList = piece ++ '\n' :: text.toList ∧ '\n' ∉ piece ∧
          Text.trim (String.ofList piece) = Text.trim line := by
      rcases hending with rfl | rfl
      · exact ⟨line.toList, by simp, hline, by rw [String.ofList_toList]⟩
      · refine ⟨line.toList ++ ['\r'], by simp, by simpa using hline, ?_⟩
        rw [Text.trim_append_return, String.ofList_toList]
    rw [hchars, Text.splitOn_append_cons, Text.splitOn_of_not_mem hfeed, List.singleton_append,
      List.map_cons, List.foldl_cons, htrim, ih hrest]
    rfl

/-- **Reading a file of rules loses and misroutes none.**  Of the lines of a file, without the
blanks around them, each list gets the rules of its section in their order, where the section of
a line is that of the nearest header before it; together they are all rules of the file.
Whatever text writes two lists of rules is read as the two lists. -/
theorem rule_file_read_back (content : String) :
    let lines := (Text.lines content).map Text.trim
    let read := readRuleFile content
    (∀ part, read.rules part = rulesIn part lines) ∧
      (read.ignore ++ read.skip).Perm (lines.filter fun line => IsRule line) ∧
      ∀ (lists : FileLines) (source : List String),
        (∀ rule ∈ lists.ignore ++ lists.skip, IsPattern rule) →
        Writes .ignore source lists → IsText source content → read = lists := by
  intro lines read
  have hread : read = ⟨rulesIn .ignore lines, rulesIn .skip lines⟩ := by
    show readRuleFile content = _
    rw [readRuleFile_eq, foldl_addLine]
    rfl
  refine ⟨?_, ?_, ?_⟩
  · rintro (_ | _) <;> rw [hread] <;> rfl
  · rw [hread]
    exact perm_rulesIn lines
  · intro lists source hrules hwrites htext
    have hsource := htext.foldl_addLine (hwrites.single_lines hrules) (reading ⟨[], []⟩ .ignore)
    calc read
      _ = ((source.map Text.trim).foldl addLine (reading ⟨[], []⟩ .ignore)).1 :=
        congrArg Prod.fst hsource
      _ = FileLines.append ⟨[], []⟩ lists := hwrites.foldl_addLine hrules _
      _ = lists := rfl

/-- A rule before the first header, a comment, padded lines, a blank line and a section that is
opened again; one line ends with a carriage return, and nothing ends the last one. -/
theorem rule_file_read_back_reopened :
    let lists : FileLines := ⟨["*.log", "/tmp"], ["/static/", "vendor"]⟩
    let content :=
      "*.log" ++ "\r\n" ++ ("# kept" ++ "\n" ++ (" [skip]" ++ "\n" ++ ("\t/static/ " ++ "\n" ++
      ("" ++ "\n" ++ ("[ignore]" ++ "\n" ++
        ("/tmp" ++ "\n" ++ ("[skip]" ++ "\n" ++ "vendor")))))))
    let source :=
      ["*.log", "# kept", " [skip]", "\t/static/ ", "", "[ignore]", "/tmp", "[skip]", "vendor"]
    (∀ rule ∈ lists.ignore ++ lists.skip, IsPattern rule) ∧ Writes .ignore source lists ∧
      IsText source content ∧
      readRuleFile content = lists := by
  intro lists content source
  have hrules : ∀ rule ∈ lists.ignore ++ lists.skip, IsPattern rule := by decide
  have hplain : ∀ text : String, IsPadded text text :=
    fun text => ⟨[], [], List.forall_mem_nil _, by simp⟩
  have hkept : IsPadded ("#" ++ " kept") "# kept" := hplain _
  have hignore : IsPadded (RuleSection.header .ignore) "[ignore]" := hplain _
  have hskip : IsPadded (RuleSection.header .skip) "[skip]" := hplain _
  have hspace : Text.isBlank ' ' = true ∧ ' ' ≠ '\n' := by decide
  have htab : Text.isBlank '\t' = true ∧ '\t' ≠ '\n' := by decide
  have hskip' : IsPadded (RuleSection.header .skip) " [skip]" :=
    ⟨[' '], [], List.forall_mem_singleton.2 hspace, by decide⟩
  have hstatic : IsPadded "/static/" "\t/static/ " :=
    ⟨['\t'], [' '], List.forall_mem_cons.2 ⟨htab, List.forall_mem_singleton.2 hspace⟩, by
      decide⟩
  have hwrites : Writes .ignore source lists :=
    .rule (hplain _) (.comment (by decide) hkept
      (.header hskip' (.rule hstatic (.blank (hplain _)
        (.header hignore (.rule (hplain _) (.header hskip (.rule (hplain _) (.done _)))))))))
  have htext : IsText source content :=
    .line (.inr rfl) (.line (.inl rfl)
      (.line (.inl rfl) (.line (.inl rfl)
        (.line (.inl rfl) (.line (.inl rfl) (.line (.inl rfl) (.line (.inl rfl) (.last _))))))))
  exact ⟨hrules, hwrites, htext, (rule_file_read_back content).2.2 lists source hrules hwrites
    htext⟩

end ProjectRules

end WebBundler
