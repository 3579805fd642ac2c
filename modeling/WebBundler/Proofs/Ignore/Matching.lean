import WebBundler.Ignore.Rule
import WebBundler.Proofs.Path.Containment
set_option autoImplicit false

/-!
# What rules match, and which one decides

A rule of one plain name is about a path exactly if this is its last name (`accepts_nameGlob`):
its glob compares bytes, and no byte of a name is a slash.  A path is decided at its lowest
level that a rule is about, itself or a directory above it (`takes_below_eq_nearest?`,
`nearest?_eq_some_iff`).
-/

namespace WebBundler

open HostPath (IsName)

namespace Text

theorem dropPrefix?_eq_none {start s : String} (h : ¬start.toList <+: s.toList) :
    dropPrefix? start s = none := by
  unfold dropPrefix?
  exact if_neg (mt List.isPrefixOf_iff_prefix.1 h)

end Text

namespace Glob

/-! ## Bytes -/

theorem bytesOf_cons (c : Char) (s : List Char) :
    bytesOf (c :: s) = String.utf8EncodeChar c ++ bytesOf s :=
  List.flatMap_cons

theorem bytesOf_append (s more : List Char) : bytesOf (s ++ more) = bytesOf s ++ bytesOf more :=
  List.flatMap_append

theorem bytesOf_inj {s s' : List Char} : bytesOf s = bytesOf s' ↔ s = s' := by
  refine ⟨fun h => ?_, fun h => h ▸ rfl⟩
  have hbytes : s.utf8Encode = s'.utf8Encode := congrArg List.toByteArray h
  rwa [← String.toByteArray_ofList, ← String.toByteArray_ofList, String.toByteArray_inj,
    String.ofList_inj] at hbytes

/-- The byte of a slash is in the encoding of no other character: those beyond ASCII are made of
higher bytes. -/
theorem eq_slash_of_mem {c : Char} (h : slash ∈ String.utf8EncodeChar c) : c = '/' := by
  have hbyte : ∀ n < 256, slash = UInt8.ofNat n → n = 47 := by
    intro n hn hslash
    have hnat := congrArg UInt8.toNat hslash
    rw [UInt8.toNat_ofNat_of_lt' hn] at hnat
    exact hnat.symm
  unfold String.utf8EncodeChar at h
  dsimp only at h
  split at h
  · next hascii =>
    rw [List.mem_singleton] at h
    have hval := hbyte _ (by omega) h
    exact Char.ext (UInt32.toNat_inj.1 hval)
  · exfalso
    split at h
    · simp only [List.mem_cons, List.not_mem_nil, or_false] at h
      rcases h with h | h
      all_goals
        have := hbyte _ (by omega) h
        omega
    · split at h
      · simp only [List.mem_cons, List.not_mem_nil, or_false] at h
        rcases h with h | h | h
        all_goals
          have := hbyte _ (by omega) h
          omega
      · simp only [List.mem_cons, List.not_mem_nil, or_false] at h
        rcases h with h | h | h | h
        all_goals
          have := hbyte _ (by omega) h
          omega

theorem slash_not_mem_bytesOf {s : List Char} (h : '/' ∉ s) : slash ∉ bytesOf s := by
  intro hmem
  obtain ⟨c, hc, hslash⟩ := List.mem_flatMap.1 hmem
  exact h (eq_slash_of_mem hslash ▸ hc)

/-! ## A plain name behind any directories -/

theorem mem_dropLiteral {bs s rest : List UInt8} :
    rest ∈ dropLiteral bs s ↔ s = bs ++ rest := by
  induction bs generalizing s with
  | nil =>
    rw [dropLiteral, List.mem_singleton]
    exact eq_comm
  | cons b bs ih =>
    cases s with
    | nil => simp [dropLiteral]
    | cons c s =>
      rw [dropLiteral]
      split
      · next hsame => rw [ih, hsame, List.cons_append, List.cons_inj_right]
      · next hne =>
        refine iff_of_false List.not_mem_nil fun h => hne ?_
        exact (List.cons.inj h).1.symm

theorem mem_afterSlashes {s rest : List UInt8} :
    rest ∈ afterSlashes s ↔ ∃ front, s = front ++ slash :: rest := by
  induction s with
  | nil => simp [afterSlashes]
  | cons b s ih =>
    have hlater : (∃ front, b :: s = front ++ slash :: rest) ↔
        b = slash ∧ s = rest ∨ ∃ front, s = front ++ slash :: rest := by
      constructor
      · rintro ⟨front, hfront⟩
        rcases List.cons_eq_append_iff.1 hfront with ⟨-, hhead⟩ | ⟨more, -, hmore⟩
        · exact .inl ⟨(List.cons.inj hhead).1.symm, (List.cons.inj hhead).2.symm⟩
        · exact .inr ⟨more, hmore⟩
      · rintro (⟨rfl, rfl⟩ | ⟨front, rfl⟩)
        · exact ⟨[], rfl⟩
        · exact ⟨b :: front, rfl⟩
    rw [hlater, ← ih, afterSlashes]
    split
    · next hslash => rw [List.mem_cons, and_iff_right hslash, eq_comm]
    · next hother => rw [or_iff_right fun h => hother h.1]

/-- A text matches the whole of what is left exactly if that is its bytes. -/
theorem nil_mem_restsOf_literals (text : List Char) (left : List (List UInt8)) :
    [] ∈ restsOf (text.map .literal) left ↔ bytesOf text ∈ left := by
  induction text generalizing left with
  | nil =>
    rw [List.map_nil, restsOf]
    rfl
  | cons c text ih =>
    rw [List.map_cons, restsOf, ih, List.mem_eraseDups, List.mem_flatMap, bytesOf_cons]
    simp only [Token.rests, mem_dropLiteral]
    exact ⟨fun ⟨s, hs, hsame⟩ => hsame ▸ hs, fun h => ⟨_, h, rfl⟩⟩

/-- The glob of a rule that is a plain name: the name behind any directories. -/
def nameGlob (name : String) : Glob := .anyStart :: name.toList.map .literal

/-- A character that stands for itself in a glob. -/
def isPlain (c : Char) : Bool := !("?*\x7b,\x7d\\[".toList.contains c)

theorem readFrom_plain {st : State} {text : List Char} (hplain : text.all isPlain = true)
    (hframes : st.frames = []) :
    readFrom st text = .ok (st.tokens.reverse ++ text.map .literal) := by
  induction text generalizing st with
  | nil =>
    rw [readFrom, hframes, List.map_nil, List.append_nil]
    rfl
  | cons c text ih =>
    rw [List.all_cons, Bool.and_eq_true] at hplain
    obtain ⟨hc, htext⟩ := hplain
    have hnext : readFrom (st.push (.literal c) c) text = _ := ih htext hframes
    unfold readFrom
    split
    case h_10 _ other rest _ _ _ _ _ _ _ _ hsame =>
      obtain ⟨rfl, rfl⟩ := List.cons.inj hsame
      rw [hnext, State.push, List.reverse_cons, List.append_assoc]
      rfl
    -- Each of the other cases is that of a character with a meaning.
    all_goals
      rename_i hsame
      cases hsame
    all_goals exact absurd hc (by decide)

theorem parse_name {name : String} (hplain : name.toList.all isPlain = true) :
    parse ("**/" ++ name) = .ok (nameGlob name) := by
  have hchars : ("**/" ++ name).toList = '*' :: '*' :: '/' :: name.toList :=
    String.toList_append
  unfold parse
  rw [hchars, readFrom]
  exact readFrom_plain hplain rfl

theorem eq_behind_slash {front front' rest rest' : List UInt8}
    (h : front ++ slash :: rest = front' ++ slash :: rest') (hrest : slash ∉ rest)
    (hrest' : slash ∉ rest') : rest = rest' := by
  have hshorter : ∀ {more rest rest' : List UInt8}, slash ∉ rest →
      slash :: rest = more ++ slash :: rest' →
      rest = rest' := by
    intro more rest rest' hrest hsame
    rcases List.cons_eq_append_iff.1 hsame with ⟨-, hhead⟩ | ⟨later, -, hlater⟩
    · exact (List.cons.inj hhead).2.symm
    · exact absurd (hlater ▸ List.mem_append_right _ List.mem_cons_self) hrest
  rcases List.append_eq_append_iff.1 h with ⟨more, -, hmore⟩ | ⟨more, -, hmore⟩
  · exact hshorter hrest hmore
  · exact (hshorter hrest' hmore).symm

/-- The glob of a plain name matches a path exactly if this is the last name of the path. -/
theorem accepts_nameGlob {name last : String} {front : List String} (hname : IsName name)
    (hlast : IsName last) (hdot : (nameGlob name).asksNameEndingInDot = false) :
    (nameGlob name).accepts (String.intercalate "/" (front ++ [last])) = true ↔
      last = name := by
  generalize hpath : String.intercalate "/" (front ++ [last]) = path
  have haccepts : (nameGlob name).accepts path = true ↔
      bytesOf name.toList = bytesOf path.toList ∨
      ∃ before, bytesOf path.toList = before ++ slash :: bytesOf name.toList := by
    have hunfold : (nameGlob name).accepts path =
        ((restsOf (nameGlob name) [bytesOf path.toList]).contains [] &&
          !(endsInParent path && (nameGlob name).asksNameEndingInDot)) := by
      obtain ⟨c, chars, hchars⟩ :=
        List.exists_cons_of_ne_nil (mt String.toList_eq_nil_iff.1 hname.ne_empty)
      unfold nameGlob
      rw [hchars]
      rfl
    rw [hunfold, hdot, Bool.and_false, Bool.not_false, Bool.and_true, List.contains_iff_mem,
      nameGlob, restsOf, nil_mem_restsOf_literals, List.mem_eraseDups, List.flatMap_singleton,
        Token.rests, List.mem_cons,
      mem_afterSlashes]
  have hplain := slash_not_mem_bytesOf hname.no_slash
  have hplain' := slash_not_mem_bytesOf hlast.no_slash
  have hsame : bytesOf name.toList = bytesOf last.toList ↔ last = name := by
    rw [bytesOf_inj, String.toList_inj, eq_comm]
  rw [haccepts, ← hsame]
  by_cases hfront : front = []
  · rw [hfront, List.nil_append, String.intercalate_singleton] at hpath
    subst hpath
    refine or_iff_left ?_
    rintro ⟨before, hbefore⟩
    exact hplain' (hbefore ▸ List.mem_append_right _ List.mem_cons_self)
  · have hbytes : bytesOf path.toList =
        bytesOf (String.intercalate "/" front).toList ++ slash :: bytesOf last.toList := by
      rw [← hpath, String.intercalate_append_of_ne_nil hfront (List.cons_ne_nil _ _),
        String.intercalate_singleton, String.toList_append, String.toList_append,
          List.append_assoc, bytesOf_append, bytesOf_append]
      rfl
    rw [hbytes]
    constructor
    · rintro (hwhole | ⟨before, hbefore⟩)
      · exact absurd (hwhole ▸ List.mem_append_right _ List.mem_cons_self) hplain
      · exact (eq_behind_slash hbefore hplain' hplain).symm
    · rintro hsame
      exact .inr ⟨_, by rw [hsame]⟩

end Glob

namespace IgnoreRules

variable {set : IgnoreRules} {front rest names : List String} {taken isDir : Bool}

/-! ## What rules see of a path -/

/-- A path that starts neither with a `./` nor with the root is seen as it is. -/
theorem relative_of_plain {path : String}
    (hstep : Text.dropPrefix? "./" path = none)
    (hroot : Text.dropPrefix? set.root.text path = none) :
    set.relative path = path := by
  unfold relative
  rw [hstep]
  dsimp only [Option.getD_none]
  rw [hroot]
  exact ite_self _

theorem root_below {root : HostPath} (hroot : root.isAbsolute = true)
    (rules : List IgnoreRule) :
    (below root rules).root = root := by
  have hnone : Text.dropPrefix? "./" root.text = none := by
    refine Text.dropPrefix?_eq_none ?_
    rintro ⟨rest, hrest⟩
    rw [HostPath.isAbsolute_eq, ← hrest] at hroot
    cases hroot
  unfold below
  rw [hnone]
  rfl

theorem relative_of_isAbsolute (hroot : set.root.isAbsolute = true)
    (h : ∀ name ∈ names, IsName name) :
    set.relative (String.intercalate "/" names) = String.intercalate "/" names := by
  refine relative_of_plain (Text.dropPrefix?_eq_none ?_) (Text.dropPrefix?_eq_none ?_)
  · rintro ⟨rest, hrest⟩
    have hne : names ≠ [] := by
      rintro rfl
      cases hrest
    have hpath : String.intercalate "/" names = "." ++ "/" ++ String.ofList rest := by
      rw [← String.toList_inj, ← hrest]
      simp
    have hsegments :=
      HostPath.segments_intercalate (fun name hname => (h name hname).no_slash) hne
    rw [hpath, HostPath.segments_append_cons] at hsegments
    exact (h "." (hsegments ▸ List.mem_append_left _ List.mem_cons_self)).ne_here rfl
  · rintro ⟨rest, hrest⟩
    have hrelative := HostPath.not_isAbsolute_intercalate h
    rw [HostPath.isAbsolute_eq] at hroot hrelative
    rw [← hrest, List.head?_append, beq_iff_eq.1 hroot] at hrelative
    cases hrelative

/-! ## The level that decides -/

/-- The verdict on the lowest level of a way down that a rule is about.  The names of some
directory are given, and those that lead on from it; what the way leads to is a directory or a
file. -/
def nearest? (set : IgnoreRules) (isDir : Bool) (front : List String) :
    List String → Option Bool
  | [] => set.verdict? (String.intercalate "/" front) isDir
  | name :: rest =>
    (nearest? set isDir (front ++ [name]) rest).or
      (set.verdict? (String.intercalate "/" front) true)

/-- The verdict on the lowest level comes before that on the levels above. -/
theorem nearest?_concat (set : IgnoreRules) (isDir : Bool) (front rest : List String)
    (name : String) :
    set.nearest? isDir front (rest ++ [name]) =
      (set.verdict? (String.intercalate "/" (front ++ rest ++ [name])) isDir).or
        (set.nearest? true front rest) := by
  induction rest generalizing front with
  | nil => rw [List.append_nil]; rfl
  | cons next rest ih =>
    rw [List.cons_append, nearest?, ih, nearest?, Option.or_assoc,
      List.append_assoc front [next]]
    rfl

theorem directoriesAbove_cons {name : String} {above : List String}
    (h : ∀ other ∈ name :: above, IsName other) :
    directoriesAbove (name :: above) = String.intercalate "/" above.reverse ::
      directoriesAbove above := by
  have hstep : ∀ other, IsName other → ∀ before, isNoStep other before = false := by
    intro other hother before
    simp [isNoStep, hother.ne_empty, hother.ne_here]
  have hkept : dropNoSteps above = above := by
    cases above with
    | nil => rfl
    | cons other above =>
      rw [dropNoSteps, hstep other (h other (List.mem_cons_of_mem _ List.mem_cons_self)) above]
      rfl
  rw [directoriesAbove, hstep name (h name List.mem_cons_self) above, hkept]
  rfl

/-- The directories above a path are asked from the nearest one up. -/
theorem findSome?_directoriesAbove {name : String}
    (h : ∀ other ∈ names ++ [name], IsName other) :
    ((directoriesAbove (names ++ [name]).reverse).findSome? fun dir => set.verdict? dir true) =
      set.nearest? true [] names := by
  induction names using List.reverseRecOn generalizing name with
  | nil =>
    rw [List.nil_append, List.reverse_singleton, directoriesAbove_cons h]
    exact List.findSome?_singleton
  | append_singleton names next ih =>
    have habove := ih fun other hother => h other (List.mem_append_left _ hother)
    rw [List.reverse_concat, directoriesAbove_cons fun other hother => h other
        (List.mem_reverse.1 (by rwa [List.reverse_concat])), List.reverse_reverse,
          List.findSome?_cons, habove,
      nearest?_concat, List.nil_append]
    cases set.verdict? (String.intercalate "/" (names ++ [next])) true <;> rfl

/-- Below an absolute root a path is decided at its lowest level that a rule is about. -/
theorem takes_below_eq_nearest? {root : HostPath} (hroot : root.isAbsolute = true)
    (h : ∀ name ∈ names, IsName name) (hne : names ≠ []) (rules : List IgnoreRule) :
    (below root rules).takes (String.intercalate "/" names) =
      ((below root rules).nearest? false [] names).getD false := by
  have hseen : (below root rules).relative (String.intercalate "/" names) =
      String.intercalate "/" names :=
    relative_of_isAbsolute ((root_below hroot rules).symm ▸ hroot) h
  obtain ⟨front, name, rfl⟩ := (List.eq_nil_or_concat names).resolve_left hne
  rw [List.concat_eq_append] at h hne hseen ⊢
  unfold takes
  rw [hseen]
  dsimp only
  rw [HostPath.segments_intercalate (fun other hother => (h other hother).no_slash) hne,
    findSome?_directoriesAbove h, nearest?_concat, List.nil_append]
  cases (below root rules).verdict? (String.intercalate "/" (front ++ [name])) false <;> rfl

theorem nearest?_eq_none_iff : set.nearest? false front rest = none ↔
    ∀ more less, rest = more ++ less →
      set.verdict? (String.intercalate "/" (front ++ more)) (!less.isEmpty) = none := by
  induction rest generalizing front with
  | nil =>
    constructor
    · intro h more less hsplit
      obtain ⟨rfl, rfl⟩ := List.append_eq_nil_iff.1 hsplit.symm
      rwa [List.append_nil]
    · intro h
      have hlast := h [] [] rfl
      rwa [List.append_nil] at hlast
  | cons name rest ih =>
    rw [nearest?, Option.or_eq_none_iff, ih]
    constructor
    · rintro ⟨hbelow, hhere⟩ more less hsplit
      cases more with
      | nil =>
        rw [List.append_nil, ← hsplit.trans (List.nil_append less)]
        exact hhere
      | cons next more =>
        obtain ⟨rfl, hrest⟩ := List.cons.inj hsplit
        rw [List.append_cons]
        exact hbelow more less hrest
    · intro h
      refine ⟨fun more less hsplit => ?_, ?_⟩
      · rw [← List.append_cons]
        exact h (name :: more) less (congrArg (name :: ·) hsplit)
      · have hhere := h [] (name :: rest) rfl
        rwa [List.append_nil] at hhere

/-- Rules decide about a way down at a level of it: the last rule about this level says so, and
no rule is about any level below. -/
structure DecidesAt (set : IgnoreRules) (taken : Bool) (front rest : List String) : Prop where
  verdict : set.verdict? (String.intercalate "/" front) (!rest.isEmpty) = some taken
  below : ∀ more less, more ≠ [] → rest = more ++ less →
    set.verdict? (String.intercalate "/" (front ++ more)) (!less.isEmpty) = none

/-- What is decided about a way down is decided at one of its levels. -/
theorem nearest?_eq_some_iff : set.nearest? false front rest = some taken ↔
    ∃ more less, rest = more ++ less ∧ set.DecidesAt taken (front ++ more) less := by
  induction rest generalizing front with
  | nil =>
    constructor
    · intro h
      refine ⟨[], [], rfl, by rwa [List.append_nil], fun more less hmore hsplit => ?_⟩
      exact absurd (List.append_eq_nil_iff.1 hsplit.symm).1 hmore
    · rintro ⟨more, less, hsplit, hdecides⟩
      obtain ⟨rfl, rfl⟩ := List.append_eq_nil_iff.1 hsplit.symm
      have hverdict := hdecides.verdict
      rwa [List.append_nil] at hverdict
  | cons name rest ih =>
    rw [nearest?, Option.or_eq_some_iff, ih, nearest?_eq_none_iff]
    constructor
    · rintro (⟨more, less, rfl, hdecides⟩ | ⟨hbelow, hhere⟩)
      · rw [← List.append_cons] at hdecides
        exact ⟨name :: more, less, rfl, hdecides⟩
      · refine ⟨[], name :: rest, rfl, by rwa [List.append_nil],
          fun more less hmore hsplit => ?_⟩
        obtain ⟨next, more, rfl⟩ := List.exists_cons_of_ne_nil hmore
        obtain ⟨rfl, hrest⟩ := List.cons.inj hsplit
        rw [List.append_nil, List.append_cons]
        exact hbelow more less hrest
    · rintro ⟨more, less, hsplit, hdecides⟩
      cases more with
      | nil =>
        rw [List.append_nil] at hdecides
        obtain rfl := hsplit
        refine .inr ⟨fun more less hrest => ?_, hdecides.verdict⟩
        rw [← List.append_cons]
        exact hdecides.below (name :: more) less (List.cons_ne_nil _ _)
          (congrArg (name :: ·) hrest)
      | cons next more =>
        obtain ⟨rfl, hrest⟩ := List.cons.inj hsplit
        rw [List.append_cons] at hdecides
        exact .inl ⟨more, less, hrest, hdecides⟩

end IgnoreRules

end WebBundler
