import Mathlib.Data.List.Basic
import Mathlib.Data.List.Induction
import WebBundler.Proofs.Compiler.Relinking
set_option autoImplicit false

/-!
# What a script keeps of its source

The references of a source are spans of its bytes, one behind the other (`spans_references`).
The code of a script is the source with the paths of modules in the place of those spans that
are resolved: the text between two of them is taken over as it stands, with the spans in it that
are not (`encode_linkedCode`).  What is required, and what is required of the project, are the
paths that are written, each at its first place (`foldl_addNew`).
-/

namespace WebBundler

namespace Text

theorem encode_ofList (s : List Char) : encode (String.ofList s) = s.utf8Encode := by
  rw [encode, String.toUTF8_eq_toByteArray, String.toByteArray_ofList]

theorem encode_eq (s : String) : encode s = s.toList.utf8Encode := by
  rw [encode, String.toUTF8_eq_toByteArray, String.utf8Encode_toList]

theorem size_utf8Encode (s : List Char) : s.utf8Encode.size = byteLength s := by
  induction s with
  | nil => rw [List.utf8Encode_nil, ByteArray.size_empty, byteLength_nil]
  | cons c s ih =>
    have hc : [c].utf8Encode.size = c.utf8Size := by
      rw [List.utf8Encode_singleton, List.size_toByteArray, String.length_utf8EncodeChar]
    rw [List.utf8Encode_cons, ByteArray.size_append, hc, ih, byteLength_cons]

end Text

namespace Script

/-! ## Spans -/

/-- Spans of some bytes, one behind the other, each with its specifier in it. -/
structure Spans (bytes : ByteArray) (references : List Reference) : Prop where
  nonempty : ∀ r ∈ references, r.start < r.stop
  inside : ∀ r ∈ references, r.stop ≤ bytes.size
  ordered : references.Pairwise fun r later => r.stop ≤ later.start
  specifier : ∀ r ∈ references, bytes.extract r.start r.stop = Text.encode r.specifier

/-- Some bytes from an offset on, with the paths of modules in the place of spans. -/
def spliced (bytes : ByteArray) (last : Nat) : List (Reference × Resolution) → ByteArray
  | [] => bytes.extract last bytes.size
  | (r, res) :: later =>
    bytes.extract last r.start ++ (Text.encode res.path.text ++ spliced bytes r.stop later)

/-- The references that are resolved, with what they are resolved to. -/
def resolved (resolve : String → Option Resolution) (references : List Reference) :
    List (Reference × Resolution) :=
  references.filterMap fun r => (resolve r.specifier).map (r, ·)

section Resolved

variable {resolve : String → Option Resolution} {r : Reference} {res : Resolution}
  {specifier : List Char}

theorem resolved_cons_of_none (h : resolve r.specifier = none) (later : List Reference) :
    resolved resolve (r :: later) = resolved resolve later :=
  List.filterMap_cons_none (by rw [h, Option.map_none])

theorem resolved_cons_of_some (h : resolve r.specifier = some res) (later : List Reference) :
    resolved resolve (r :: later) = (r, res) :: resolved resolve later :=
  List.filterMap_cons_some (by rw [h, Option.map_some])

theorem written_of_none (h : resolve (String.ofList specifier) = none) :
    written resolve specifier = specifier := by
  rw [written, h]

theorem written_of_some (h : resolve (String.ofList specifier) = some res) :
    written resolve specifier = res.path.text.toList := by
  rw [written, h]

end Resolved

section Parts

variable (front : ByteArray) {parts : List (List Char × List Char)} {tail : List Char}

theorem text_cons (before specifier : List Char) :
    front ++ (Cuts.mk ((before, specifier) :: parts) tail).text.utf8Encode =
      front ++ before.utf8Encode ++ specifier.utf8Encode ++
        (Cuts.mk parts tail).text.utf8Encode := by
  unfold Cuts.text
  rw [Cuts.textWith_cons, List.utf8Encode_append, List.utf8Encode_append]
  simp only [id_eq, ByteArray.append_assoc]

/-- The offsets of the part that comes next. -/
theorem size_front (before specifier : List Char) :
    (front ++ before.utf8Encode).size = front.size + Text.byteLength before ∧
      (front ++ before.utf8Encode ++ specifier.utf8Encode).size =
        front.size + Text.byteLength before + Text.byteLength specifier := by
  simp only [ByteArray.size_append, Text.size_utf8Encode, and_self]

/-- The specifiers of parts that follow some bytes are spans. -/
theorem spans_locate (hparts : ∀ part ∈ parts, part.2 ≠ []) :
    Spans (front ++ (Cuts.mk parts tail).text.utf8Encode) (locate front.size parts) ∧
      ∀ r ∈ locate front.size parts, front.size ≤ r.start := by
  induction parts generalizing front with
  | nil =>
    refine ⟨⟨?_, ?_, List.Pairwise.nil, ?_⟩, ?_⟩ <;> exact fun r hr =>
      absurd hr List.not_mem_nil
  | cons part parts ih =>
    obtain ⟨before, specifier⟩ := part
    rw [List.forall_mem_cons] at hparts
    obtain ⟨hne, hlater⟩ := hparts
    obtain ⟨hstart, hstop⟩ := size_front front before specifier
    obtain ⟨hspans, hbehind⟩ := ih (front ++ before.utf8Encode ++ specifier.utf8Encode) hlater
    rw [hstop] at hspans hbehind
    have hlength : 0 < Text.byteLength specifier := by
      cases specifier with
      | nil => exact absurd rfl hne
      | cons c specifier =>
        rw [Text.byteLength_cons]
        exact Nat.add_pos_left c.utf8Size_pos _
    rw [text_cons, locate]
    refine ⟨⟨?_, ?_, List.pairwise_cons.2 ⟨hbehind, hspans.ordered⟩, ?_⟩, ?_⟩
    · exact List.forall_mem_cons.2 ⟨Nat.lt_add_of_pos_right hlength, hspans.nonempty⟩
    · refine List.forall_mem_cons.2 ⟨?_, hspans.inside⟩
      rw [ByteArray.size_append, hstop]
      exact Nat.le_add_right _ _
    · refine List.forall_mem_cons.2 ⟨?_, hspans.specifier⟩
      rw [Text.encode_ofList, ByteArray.append_assoc, ← hstart,
        ← Text.size_utf8Encode specifier]
      exact (ByteArray.extract_append_size_add (i := 0)).trans
        (ByteArray.extract_append_eq_left rfl)
    · refine List.forall_mem_cons.2 ⟨Nat.le_add_right _ _, fun r hr => ?_⟩
      have := hbehind r hr
      omega

theorem extract_append_size {last : Nat} (hlast : last ≤ front.size) (more : ByteArray) :
    (front ++ more).extract last (front ++ more).size =
      front.extract last front.size ++ more := by
  have hsize : front.size ≤ (front ++ more).size := by
    rw [ByteArray.size_append]
    exact Nat.le_add_right _ _
  rw [ByteArray.extract_eq_extract_append_extract front.size hlast hsize,
    ByteArray.extract_append_size_left, ByteArray.extract_append_eq_right rfl
      ByteArray.size_append]

/-- Splicing the parts of a source takes over what is left in front of them, and writes the
parts out. -/
theorem spliced_locate (resolve : String → Option Resolution) {last : Nat}
    (hlast : last ≤ front.size) :
    spliced (front ++ (Cuts.mk parts tail).text.utf8Encode) last
      (resolved resolve (locate front.size parts)) =
      front.extract last front.size ++
        ((Cuts.mk parts tail).textWith (written resolve)).utf8Encode := by
  induction parts generalizing front last with
  | nil => exact extract_append_size front hlast _
  | cons part parts ih =>
    obtain ⟨before, specifier⟩ := part
    obtain ⟨hstart, hstop⟩ := size_front front before specifier
    have hbefore : (front ++ before.utf8Encode).extract last (front ++ before.utf8Encode).size =
        front.extract last front.size ++ before.utf8Encode := extract_append_size front hlast _
    have hreach : last ≤ (front ++ before.utf8Encode).size := by omega
    rw [text_cons, locate, Cuts.textWith_cons, List.utf8Encode_append, List.utf8Encode_append,
      ← ByteArray.append_assoc, ← hbefore, ← hstop, ← hstart]
    cases hres : resolve (String.ofList specifier) with
    | none =>
      -- The span stays in the text that is taken over with the next part.
      rw [resolved_cons_of_none hres, written_of_none hres, ih _ (by omega),
        extract_append_size _ hreach, ByteArray.append_assoc]
    | some res =>
      rw [resolved_cons_of_some hres, written_of_some hres, spliced, ih _ (Nat.le_refl _),
        ByteArray.extract_same, ByteArray.empty_append, ByteArray.append_assoc,
          ByteArray.extract_append_size_left, Text.encode_eq]

end Parts

theorem spans_references (source : String) :
    Spans (Text.encode source) (references source) := by
  have hparts : ∀ part ∈ (Cuts.of source).parts, part.2 ≠ [] := fun part hpart =>
    (Cuts.isSpecifier_of_mem_scan none source.toList part.2 (List.mem_map_of_mem hpart)).ne_nil
  have hspans : Spans (ByteArray.empty ++ (Cuts.of source).text.utf8Encode)
      (references source) :=
    (spans_locate ByteArray.empty hparts).1
  rwa [ByteArray.empty_append, Cuts.text_of, ← Text.encode_eq] at hspans

/-- The code of a script is its source with the paths of modules in the place of the spans that
are resolved. -/
theorem encode_linkedCode (resolve : String → Option Resolution) (source : String) :
    Text.encode (linkedCode resolve source) =
      spliced (Text.encode source) 0 (resolved resolve (references source)) := by
  have hspliced : spliced (ByteArray.empty ++ (Cuts.of source).text.utf8Encode) 0
      (resolved resolve (references source)) =
        ByteArray.empty ++ ((Cuts.of source).textWith (written resolve)).utf8Encode :=
    spliced_locate ByteArray.empty resolve (Nat.le_refl 0)
  rw [ByteArray.empty_append, Cuts.text_of, ← Text.encode_eq] at hspliced
  rw [linkedCode, Text.encode_ofList]
  exact (hspliced.trans ByteArray.empty_append).symm

/-! ## What is required -/

theorem foldl_addNew {α : Type} [DecidableEq α] (items : List α) :
    items.foldl addNew [] = items.eraseDups := by
  induction items using List.reverseRecOn with
  | nil => rfl
  | append_singleton items a ih =>
    rw [List.foldl_append, ih, List.foldl_cons, List.foldl_nil, List.eraseDups_append, addNew]
    by_cases ha : a ∈ items
    · have hremove : [a].removeAll items = [] := by simp [List.removeAll, ha]
      rw [if_pos (List.contains_iff_mem.2 (List.mem_eraseDups.2 ha)), hremove,
        List.eraseDups_nil, List.append_nil]
    · have hremove : [a].removeAll items = [a] := by simp [List.removeAll, ha]
      rw [if_neg (mt List.contains_iff_mem.1 (mt List.mem_eraseDups.1 ha)), hremove,
        List.eraseDups_cons]
      rfl

theorem origins_foldl_add (found : List Resolution) (known : Requirements) :
    (found.foldl Requirements.add known).origins =
      ((found.filter fun res => res.kind = .found).map fun res => res.path.text).foldl addNew
        known.origins := by
  induction found generalizing known with
  | nil => rfl
  | cons res found ih =>
    rw [List.foldl_cons, ih, Requirements.add]
    dsimp only
    by_cases hkind : res.kind = .found
    · rw [if_pos hkind, List.filter_cons_of_pos (by simpa using hkind), List.map_cons,
        List.foldl_cons]
    · rw [if_neg hkind, List.filter_cons_of_neg (by simpa using hkind)]

theorem filterMap_specifiers (resolve : String → Option Resolution) (source : String) :
    (Cuts.of source).specifiers.filterMap resolve =
      (resolved resolve (references source)).map Prod.snd := by
  rw [← map_specifier_references, List.filterMap_map, resolved, List.map_filterMap]
  apply List.filterMap_congr
  intro r _
  rw [Function.comp_apply, Option.map_map]
  exact (Option.map_id' (x := resolve r.specifier)).symm

theorem requirements_eq (resolve : String → Option Resolution) (source : String) :
    requirements resolve source =
      { paths := ((resolved resolve (references source)).map fun link => link.2.path).eraseDups
        origins :=
          (((resolved resolve (references source)).filter fun link => link.2.kind = .found).map
            fun link =>
          link.2.path.text).eraseDups } := by
  have hpaths := paths_foldl_add ((Cuts.of source).specifiers.filterMap resolve) ⟨[], []⟩
  have horigins := origins_foldl_add ((Cuts.of source).specifiers.filterMap resolve) ⟨[], []⟩
  rw [filterMap_specifiers, foldl_addNew, List.map_map] at hpaths
  rw [filterMap_specifiers, foldl_addNew, List.filter_map, List.map_map] at horigins
  rw [requirements, filterMap_specifiers]
  exact congrArg₂ Requirements.mk hpaths horigins

end Script

namespace Resolver

open Script

/-- The references of a source that are resolved in a tree, in order. -/
def linksIn (r : Resolver) (t : FileTree) (referrer : QueryPath) (source : String) :
    List (Reference × Resolution) :=
  resolved (fun specifier => (r.resolve specifier referrer).answer t) (references source)

/-- **A script is changed in its specifiers only.**  Its references are spans of its bytes, one
behind the other.  The code is the source with the path of the module in the place of each span
that is resolved, and all other bytes as they were.  The script requires the paths of these
modules, each once, in the order in which they first stand in the source; those that were found
in the project are listed in the same way, and all of them are required. -/
theorem script_changed_in_specifiers (r : Resolver) (t : FileTree) (request : CompileRequest)
    (source : String) :
    Spans (Text.encode source) (references source) ∧
      Text.encode (r.scriptModule t request source).code =
        spliced (Text.encode source) 0 (r.linksIn t request.path source) ∧
      (r.scriptModule t request source).requires =
        ((r.linksIn t request.path source).map fun link => link.2.path).eraseDups ∧
      (r.scriptModule t request source).requiresOrigin =
        (((r.linksIn t request.path source).filter fun link => link.2.kind = .found).map
            fun link =>
          link.2.path.text).eraseDups ∧
      ∀ origin ∈ (r.scriptModule t request source).requiresOrigin,
        origin ∈ (r.scriptModule t request source).requires.map QueryPath.text := by
  have hrequired :=
    requirements_eq (fun specifier => (r.resolve specifier request.path).answer t) source
  refine ⟨spans_references source, encode_linkedCode _ source,
    congrArg Requirements.paths hrequired, congrArg Requirements.origins hrequired,
      fun origin horigin => ?_⟩
  have hfound :=
    found_requirements (fun specifier => (r.resolve specifier request.path).answer t) source
  exact List.mem_map_of_mem (f := QueryPath.text) (hfound.listed origin horigin)

end Resolver

end WebBundler
