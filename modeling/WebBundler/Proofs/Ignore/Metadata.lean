import WebBundler.Ignore.Classification
import WebBundler.Proofs.Ignore.Matching
set_option autoImplicit false

/-!
# What becomes of version-control metadata

The rules that hold in every project come before its own, and of the rules about a path the last
one decides.  So a path with a name of version-control metadata in it is left out unless an own
rule takes it back: one about the file, or about a directory above it with no such name below
(`metadata_ignored_unless_taken_back`).
-/

namespace WebBundler

open HostPath (IsName)
open QueryPath (pathOf)

namespace IgnoreRule

/-- The rule of a line that is a plain name. -/
def nameRule (name : String) : IgnoreRule := ⟨Glob.nameGlob name, false, false⟩

/-- A line of a plain name, perhaps with a `!` before it. -/
structure IsNameLine (line name : String) (takesBack : Bool) : Prop where
  no_comment : Text.startsWith line "#" = false
  no_escape : Text.endsWith line "\\ " = false
  no_blank : Text.trimEnd line = line
  ne_empty : line ≠ ""
  signs : splitSigns line.toList = (takesBack, false, name.toList)
  no_slash : splitFinalSlash name.toList = (false, name.toList)
  plain : name.toList.all Glob.isPlain = true

instance (line name : String) (takesBack : Bool) : Decidable (IsNameLine line name takesBack) :=
  decidable_of_iff (Text.startsWith line "#" = false ∧ Text.endsWith line "\\ " = false ∧
      Text.trimEnd line = line ∧
      line ≠ "" ∧ splitSigns line.toList = (takesBack, false, name.toList) ∧
      splitFinalSlash name.toList = (false, name.toList) ∧ name.toList.all Glob.isPlain = true)
    ⟨fun h => ⟨h.1, h.2.1, h.2.2.1, h.2.2.2.1, h.2.2.2.2.1, h.2.2.2.2.2.1, h.2.2.2.2.2.2⟩,
      fun h => ⟨h.1, h.2, h.3, h.4, h.5, h.6, h.7⟩⟩

theorem IsNameLine.ofLine_eq {line name : String} {takesBack : Bool}
    (h : IsNameLine line name takesBack) (hglob : completeGlob false name = "**/" ++ name) :
    ofLine line = .ok (some ⟨Glob.nameGlob name, takesBack, false⟩) := by
  unfold ofLine
  simp only [h.no_comment, h.no_escape, h.no_blank, h.ne_empty, h.signs, h.no_slash,
    String.ofList_toList, hglob, Glob.parse_name h.plain, Bool.false_eq_true, if_false]

theorem isName_builtIn : ∀ name ∈ ProjectRules.builtIn,
    IsName name ∧ (Glob.nameGlob name).asksNameEndingInDot = false ∧
    IsNameLine name name false := by
  decide

theorem ofLine_builtIn {name : String} (h : name ∈ ProjectRules.builtIn) :
    ofLine name = .ok (some (nameRule name)) := by
  refine (isName_builtIn name h).2.2.ofLine_eq ?_
  simp only [ProjectRules.builtIn, List.mem_cons, List.not_mem_nil, or_false] at h
  rcases h with rfl | rfl | rfl <;> cbv

theorem mapM_ofLine {lines : List String} {rule : String → IgnoreRule}
    (h : ∀ line ∈ lines, ofLine line = .ok (some (rule line))) :
    lines.mapM ofLine = .ok (lines.map fun line => some (rule line)) := by
  induction lines with
  | nil => rfl
  | cons line lines ih =>
    rw [List.forall_mem_cons] at h
    rw [List.mapM_cons, h.1, ih h.2]
    rfl

/-- The rules of a project are those of every project and its own. -/
theorem ofLines_builtIn_append {lines : List String} {rules : List IgnoreRule} :
    ofLines (ProjectRules.builtIn ++ lines) = .ok rules ↔
      ∃ own, ofLines lines = .ok own ∧ rules = ProjectRules.builtIn.map nameRule ++ own := by
  have hbuiltIn : ProjectRules.builtIn.mapM ofLine = _ := mapM_ofLine fun _ => ofLine_builtIn
  unfold ofLines
  rw [List.mapM_append, hbuiltIn]
  cases lines.mapM ofLine with
  | error fault => exact iff_of_false nofun fun ⟨own, hown, _⟩ => nomatch hown
  | ok own =>
    constructor
    · intro h
      cases h
      exact ⟨_, rfl, rfl⟩
    · rintro ⟨own, hown, rfl⟩
      cases hown
      rfl

end IgnoreRule

namespace IgnoreRules

variable {root : HostPath} {own : List IgnoreRule} {front rest names : List String}
  {last : String} {isDir taken : Bool}

/-- The rules that hold in every project, and more behind them. -/
def builtInAnd (root : HostPath) (own : List IgnoreRule) : IgnoreRules :=
  below root (ProjectRules.builtIn.map IgnoreRule.nameRule ++ own)

/-- The own rules have the last word; if none is about a path, it is left out if its last name
is that of metadata. -/
theorem verdict?_builtInAnd (hlast : IsName last) :
    (builtInAnd root own).verdict? (String.intercalate "/" (front ++ [last])) isDir =
      ((below root own).verdict? (String.intercalate "/" (front ++ [last])) isDir).or
        (if last ∈ ProjectRules.builtIn then some true else none) := by
  generalize hpath : String.intercalate "/" (front ++ [last]) = path
  have habout : ∀ name ∈ ProjectRules.builtIn,
      (IgnoreRule.nameRule name).isAbout path isDir = true ↔ last = name := by
    intro name hname
    obtain ⟨hisName, hdot, -⟩ := IgnoreRule.isName_builtIn name hname
    have haccepts : (Glob.nameGlob name).accepts (String.intercalate "/" (front ++ [last])) =
        true ↔ last = name :=
      Glob.accepts_nameGlob hisName hlast hdot
    rw [← haccepts, hpath]
    simp [IgnoreRule.isAbout, IgnoreRule.nameRule]
  unfold builtInAnd verdict? below
  dsimp only
  rw [List.reverse_append, List.find?_append, Option.map_or]
  congr 1
  cases hfound : (ProjectRules.builtIn.map IgnoreRule.nameRule).reverse.find?
    (·.isAbout path isDir) with
  | none =>
    rw [if_neg]
    · rfl
    · intro hmem
      refine List.find?_eq_none.1 hfound (IgnoreRule.nameRule last) ?_
        ((habout last hmem).2 rfl)
      exact List.mem_reverse.2 (List.mem_map_of_mem hmem)
  | some rule =>
    have hrule := List.mem_reverse.1 (List.mem_of_find?_eq_some hfound)
    obtain ⟨name, hname, rfl⟩ := List.mem_map.1 hrule
    have hsays := List.find?_some hfound
    rw [(habout name hname).1 hsays, if_pos hname]
    rfl

theorem nearest?_builtInAnd_ne_none (hnames : ∀ name ∈ names, IsName name)
    (hmeta : ∃ name ∈ names, name ∈ ProjectRules.builtIn) :
    (builtInAnd root own).nearest? false [] names ≠ none := by
  obtain ⟨name, hname, hbuiltIn⟩ := hmeta
  obtain ⟨front, rest, rfl⟩ := List.append_of_mem hname
  intro hnone
  have hlevel := nearest?_eq_none_iff.1 hnone (front ++ [name]) rest (by simp)
  rw [List.nil_append, verdict?_builtInAnd (hnames name hname), if_pos hbuiltIn,
    Option.or_eq_none_iff] at hlevel
  cases hlevel.2

/-- No rule is about a level below some directory exactly if no own rule is and its last name is
not that of metadata. -/
theorem verdict?_builtInAnd_eq_none_iff (hlast : IsName last) :
    (builtInAnd root own).verdict? (String.intercalate "/" (front ++ [last])) isDir = none ↔
      (below root own).verdict? (String.intercalate "/" (front ++ [last])) isDir = none ∧
        last ∉ ProjectRules.builtIn := by
  rw [verdict?_builtInAnd hlast, Option.or_eq_none_iff]
  refine and_congr_right fun _ => ?_
  split
  · next hmem => exact iff_of_false nofun (not_not_intro hmem)
  · next hmem => exact iff_of_true rfl hmem

/-- Only own rules take a level back. -/
theorem verdict?_builtInAnd_eq_false_iff (hlast : IsName last) :
    (builtInAnd root own).verdict? (String.intercalate "/" (front ++ [last])) isDir =
      some false ↔
      (below root own).verdict? (String.intercalate "/" (front ++ [last])) isDir =
        some false := by
  rw [verdict?_builtInAnd hlast, Option.or_eq_some_iff]
  refine or_iff_left ?_
  split
  · exact nofun
  · exact nofun

/-- A way down with a name of metadata on it is taken back at a level exactly if the own rules
do so there, and no such name is below. -/
theorem decidesAt_builtInAnd_iff (hnames : ∀ name ∈ front ++ rest, IsName name)
    (hmeta : ∃ name ∈ front ++ rest, name ∈ ProjectRules.builtIn) :
    (builtInAnd root own).DecidesAt false front rest ↔
      (∀ name ∈ rest, name ∉ ProjectRules.builtIn) ∧
      (below root own).DecidesAt false front rest := by
  have hrest : ∀ {more less : List String} {name : String}, rest = (more ++ [name]) ++ less →
      ((builtInAnd root own).verdict? (String.intercalate "/" (front ++ (more ++ [name])))
        (!less.isEmpty) = none ↔
        (below root own).verdict? (String.intercalate "/" (front ++ (more ++ [name])))
          (!less.isEmpty) = none ∧
          name ∉ ProjectRules.builtIn) := by
    intro more less name hsplit
    rw [← List.append_assoc]
    exact verdict?_builtInAnd_eq_none_iff (hnames name (by simp [hsplit]))
  have hfront : (∀ name ∈ rest, name ∉ ProjectRules.builtIn) →
      ((builtInAnd root own).verdict? (String.intercalate "/" front) (!rest.isEmpty) =
        some false ↔
        (below root own).verdict? (String.intercalate "/" front) (!rest.isEmpty) =
          some false) := by
    intro hplain
    rcases List.eq_nil_or_concat front with rfl | ⟨before, name, rfl⟩
    · obtain ⟨name, hname, hbuiltIn⟩ := hmeta
      exact absurd hbuiltIn (hplain name hname)
    · rw [List.concat_eq_append] at hnames ⊢
      exact verdict?_builtInAnd_eq_false_iff (hnames name (by simp))
  constructor
  · intro h
    have hplain : ∀ name ∈ rest, name ∉ ProjectRules.builtIn := by
      intro name hname
      obtain ⟨more, less, hsplit⟩ := List.append_of_mem hname
      rw [List.append_cons] at hsplit
      exact ((hrest hsplit).1 (h.below (more ++ [name]) less (by simp) hsplit)).2
    refine ⟨hplain, (hfront hplain).1 h.verdict, fun more less hmore hsplit => ?_⟩
    obtain ⟨more, name, rfl⟩ := (List.eq_nil_or_concat more).resolve_left hmore
    rw [List.concat_eq_append] at hmore hsplit ⊢
    exact ((hrest hsplit).1 (h.below _ less hmore hsplit)).1
  · rintro ⟨hplain, h⟩
    refine ⟨(hfront hplain).2 h.verdict, fun more less hmore hsplit => ?_⟩
    obtain ⟨more, name, rfl⟩ := (List.eq_nil_or_concat more).resolve_left hmore
    rw [List.concat_eq_append] at hmore hsplit ⊢
    exact (hrest hsplit).2 ⟨h.below _ less hmore hsplit, hplain name (by simp [hsplit])⟩

/-- The built-in rules and others leave a path with a name of metadata on it exactly if the
others take it back. -/
theorem takes_builtInAnd_eq_false_iff (hroot : root.isAbsolute = true)
    (hnames : ∀ name ∈ names, IsName name)
    (hmeta : ∃ name ∈ names, name ∈ ProjectRules.builtIn) :
    (builtInAnd root own).takes (String.intercalate "/" names) = false ↔
      ∃ front rest, names = front ++ rest ∧
      (∀ name ∈ rest, name ∉ ProjectRules.builtIn) ∧
      (below root own).DecidesAt false front rest := by
  have hne : names ≠ [] := by
    rintro rfl
    obtain ⟨name, hname, -⟩ := hmeta
    cases hname
  have htakes : (builtInAnd root own).takes (String.intercalate "/" names) =
      ((builtInAnd root own).nearest? false [] names).getD false :=
    takes_below_eq_nearest? hroot hnames hne _
  have hsome : (builtInAnd root own).nearest? false [] names ≠ none :=
    nearest?_builtInAnd_ne_none hnames hmeta
  have hnearest : ((builtInAnd root own).nearest? false [] names).getD false = false ↔
      (builtInAnd root own).nearest? false [] names = some false := by
    cases hverdict : (builtInAnd root own).nearest? false [] names with
    | none => exact absurd hverdict hsome
    | some taken => rw [Option.getD_some, Option.some_inj]
  rw [htakes, hnearest, nearest?_eq_some_iff]
  refine exists_congr fun front => exists_congr fun rest => and_congr_right fun hsplit => ?_
  rw [List.nil_append]
  subst hsplit
  exact decidesAt_builtInAnd_iff hnames hmeta

end IgnoreRules

namespace ProjectRules

variable {root : HostPath} {ignore skip : List String} {rules : ProjectRules}
  {names : List String}

theorem ofLines_eq_ok_iff : ofLines root ignore skip = .ok rules ↔
    ∃ own skipped, IgnoreRule.ofLines ignore = .ok own ∧ IgnoreRule.ofLines skip = .ok skipped ∧
      rules = ⟨IgnoreRules.builtInAnd root own, IgnoreRules.below root skipped⟩ := by
  unfold ofLines
  constructor
  · intro h
    split at h
    · cases h
    · next all hall =>
      obtain ⟨own, hown, rfl⟩ := IgnoreRule.ofLines_builtIn_append.1 hall
      split at h
      · cases h
      · next skipped hskipped =>
        cases h
        exact ⟨own, skipped, hown, hskipped, rfl⟩
  · rintro ⟨own, skipped, hown, hskipped, rfl⟩
    rw [IgnoreRule.ofLines_builtIn_append.2 ⟨own, hown, rfl⟩, hskipped]
    rfl

theorem classify_eq_ignore_iff (hnames : ∀ name ∈ names, IsName name) :
    rules.classify (pathOf names) = .ignore ↔
      rules.ignore.takes (String.intercalate "/" names) = true := by
  unfold classify
  dsimp only
  rw [QueryPath.trimStartChar_pathOf hnames]
  split
  · next htaken => exact iff_of_true rfl htaken
  · next hfree =>
    refine iff_of_false ?_ hfree
    split <;> exact nofun

/-- **Metadata is left out unless an own rule takes it back.**  Below an absolute root, a file
whose path has the name `.git`, `.svn` or `.DS_Store` on it is built or copied exactly if the
own rules take it back at some level of the path with no such name below: the last one about
this level starts with a `!`, and none is about a level below.  So it is left out if no own rule
starts with a `!`. -/
theorem metadata_ignored_unless_taken_back (hroot : root.isAbsolute = true)
    (hrules : ofLines root ignore skip = .ok rules) (hnames : ∀ name ∈ names, IsName name)
    (hmeta : ∃ name ∈ names, name ∈ builtIn) :
    ∃ own, IgnoreRule.ofLines ignore = .ok own ∧
      (rules.classify (pathOf names) ≠ .ignore ↔ ∃ front rest, names = front ++ rest ∧
        (∀ name ∈ rest, name ∉ builtIn) ∧ (IgnoreRules.below root own).DecidesAt false front
          rest) ∧
      ((∀ rule ∈ own, rule.takesBack = false) → rules.classify (pathOf names) = .ignore) := by
  obtain ⟨own, skipped, hown, -, hsame⟩ := ofLines_eq_ok_iff.1 hrules
  have hignore : rules.ignore = IgnoreRules.builtInAnd root own := by rw [hsame]
  have hdecided : rules.classify (pathOf names) ≠ .ignore ↔
      ∃ front rest, names = front ++ rest ∧
      (∀ name ∈ rest, name ∉ builtIn) ∧ (IgnoreRules.below root own).DecidesAt false front
        rest := by
    rw [ne_eq, classify_eq_ignore_iff hnames, hignore, Bool.not_eq_true]
    exact IgnoreRules.takes_builtInAnd_eq_false_iff hroot hnames hmeta
  refine ⟨own, hown, hdecided, fun hforward => ?_⟩
  by_contra hkept
  obtain ⟨front, rest, -, -, hlevel⟩ := hdecided.1 hkept
  obtain ⟨rule, hrule, htaken⟩ := Option.map_eq_some_iff.1 hlevel.verdict
  rw [hforward rule (List.mem_reverse.1 (List.mem_of_find?_eq_some hrule))] at htaken
  cases htaken

/-- The rule of a name with a `!` before it. -/
def backRule (name : String) : IgnoreRule := ⟨Glob.nameGlob name, true, false⟩

theorem ofLines_back : IgnoreRule.ofLines ["!HEAD"] = .ok [backRule "HEAD"] ∧
    IgnoreRule.ofLines ["!.git"] = .ok [backRule ".git"] := by
  have hlines : IgnoreRule.IsNameLine "!HEAD" "HEAD" true ∧
      IgnoreRule.IsNameLine "!.git" ".git" true := by
    decide
  have hhead := hlines.1.ofLine_eq (by cbv)
  have hgit := hlines.2.ofLine_eq (by cbv)
  unfold IgnoreRule.ofLines
  rw [List.mapM_cons, List.mapM_cons, List.mapM_nil, hhead, hgit]
  exact ⟨rfl, rfl⟩

/-- A rule takes one file of the metadata back, and the others are left out. -/
theorem metadata_ignored_unless_taken_back_head :
    ∃ rules, ofLines ⟨"/project"⟩ ["!HEAD"] [] = .ok rules ∧
      rules.classify (pathOf [".git", "config"]) = .ignore ∧
      rules.classify (pathOf [".git", "HEAD"]) ≠ .ignore := by
  have hrules : ofLines ⟨"/project"⟩ ["!HEAD"] [] = .ok _ :=
    ofLines_eq_ok_iff.2 ⟨_, _, ofLines_back.1, rfl, rfl⟩
  refine ⟨_, hrules, ?_, ?_⟩
  · have hnames : ∀ name ∈ [".git", "config"], IsName name := by decide
    obtain ⟨own, hown, hdecided, -⟩ :=
      metadata_ignored_unless_taken_back rfl hrules hnames (by decide)
    cases ofLines_back.1.symm.trans hown
    by_contra hkept
    obtain ⟨front, rest, hsplit, -, hlevel⟩ := hdecided.1 hkept
    have hlevels : ∀ n ≤ [".git", "config"].length,
        (IgnoreRules.below ⟨"/project"⟩ [backRule "HEAD"]).verdict?
          (String.intercalate "/" ([".git", "config"].take n))
          (!([".git", "config"].drop n).isEmpty) = none := by
      decide +kernel
    have hnone := hlevels front.length (by simp [hsplit])
    rw [hsplit, List.take_left, List.drop_left, hlevel.verdict] at hnone
    cases hnone
  · have hnames : ∀ name ∈ [".git", "HEAD"], IsName name := by decide
    obtain ⟨own, hown, hdecided, -⟩ :=
      metadata_ignored_unless_taken_back rfl hrules hnames (by decide)
    cases ofLines_back.1.symm.trans hown
    refine hdecided.2 ⟨[".git", "HEAD"], [], rfl, by simp, by
      decide +kernel, fun more less hmore hsplit => ?_⟩
    exact absurd (List.append_eq_nil_iff.1 hsplit.symm).1 hmore

/-- A rule takes all of the metadata back, and it is built. -/
theorem metadata_taken_back :
    ∃ rules, ofLines ⟨"/project"⟩ ["!.git"] [] = .ok rules ∧
      rules.classify "/.git/HEAD" = .build := by
  have hrules : ofLines ⟨"/project"⟩ ["!.git"] [] = .ok _ :=
    ofLines_eq_ok_iff.2 ⟨_, _, ofLines_back.2, rfl, rfl⟩
  refine ⟨_, hrules, ?_⟩
  have hpath : Text.trimStartChar '/' "/.git/HEAD" =
    String.intercalate "/" [".git", "HEAD"] := by decide
  have hnames : ∀ name ∈ [".git", "HEAD"], IsName name := by decide
  have htakes := IgnoreRules.takes_below_eq_nearest?
    (rfl : (HostPath.mk "/project").isAbsolute = true) hnames (by simp)
  unfold classify
  dsimp only
  rw [hpath, IgnoreRules.builtInAnd, htakes, htakes]
  decide +kernel

end ProjectRules

end WebBundler
