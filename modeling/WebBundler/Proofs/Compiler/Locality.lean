import Mathlib.Data.List.Find
import WebBundler.Proofs.FileTree.Outside
import WebBundler.Proofs.Resolution.Inquiry
set_option autoImplicit false

/-!
# What lies outside of the project does not matter

The standard compiler reads the source of a request and looks for what it requires, all of it
below the root.  So it makes the same of a request in two trees that agree outside of a
directory which lies apart from the root (`readsBelow_standard`).
-/

namespace WebBundler

open FileTree (AgreeOutside Apart)
open QueryPath (normalize)

variable {r : Resolver} {t t' : FileTree} {base : List String}

namespace Resolver

/-- What leads down from the root lies apart from all that the root lies apart from. -/
theorem IsDown.apart {root : HostPath} {path : String} (h : IsDown path)
    (hroot : Apart base root.location) : Apart base (root.below path).location := by
  obtain ⟨names, hnames, hdown⟩ := h
  rw [hdown.below, QueryPath.location_below_pathOf root fun name hname =>
    (hnames name hname).isName]
  exact hroot.append names

theorem isDown_of_normalized {path : String} (h : normalize path = path) : IsDown path := by
  obtain ⟨names, hnames, hpath⟩ := QueryPath.exists_normalize_eq path
  exact ⟨names, hnames, .inl (h.symm.trans hpath)⟩

section Resolution

variable (h : AgreeOutside base t t') (hroot : Apart base r.root.location)
include h hroot

theorem hasFile_of_agreeOutside {path : String} (hpath : IsDown path) :
    r.hasFile t' path = r.hasFile t path :=
  h.isRegular_eq (hpath.apart hroot)

theorem description_of_agreeOutside (raw : String) :
    r.description t' (normalize raw) = r.description t (normalize raw) := by
  have hpath := (isDown_description raw).apart hroot
  unfold description Lookup.text? FileTree.holds
  rw [Lookup.answer_look, Lookup.answer_look, h.look_eq hpath, h.read_eq hpath]

theorem filesFor_of_agreeOutside (specifier : String) (referrer : QueryPath) :
    r.filesFor t' specifier referrer = r.filesFor t specifier referrer := by
  unfold filesFor
  rw [← normalize_locationOf, description_of_agreeOutside h hroot]

theorem resolve_of_agreeOutside (specifier : String) (referrer : QueryPath) :
    (r.resolve specifier referrer).answer t' = (r.resolve specifier referrer).answer t := by
  by_cases hlocal : IsLocal specifier
  · have hfiles : ∀ file ∈ r.filesFor t specifier referrer, IsDown file := by
      intro file hfile
      unfold filesFor at hfile
      rw [← normalize_locationOf] at hfile
      split at hfile
      · exact isDown_of_mem_entryFiles hfile
      · exact isDown_of_mem_forms_normalize hfile
    have hfind : (r.filesFor t specifier referrer).find? (r.hasFile t') =
        (r.filesFor t specifier referrer).find? (r.hasFile t) :=
      List.find?_congr fun file hfile => hasFile_of_agreeOutside h hroot (hfiles file hfile)
    rw [answer_resolve hlocal, answer_resolve hlocal, filesFor_of_agreeOutside h hroot, hfind]
  · obtain ⟨exchanges, hruns, -⟩ := exists_runs_resolve r specifier referrer t
    obtain ⟨exchanges', hruns', -⟩ := exists_runs_resolve r specifier referrer t'
    rw [(runs_inquiry_of_not_isLocal hlocal hruns).2,
      (runs_inquiry_of_not_isLocal hlocal hruns').2]

end Resolution

end Resolver

namespace Compiler

open Resolver (isDown_of_normalized resolve_of_agreeOutside)

/-- A compiler reads below a root: it makes the same of a canonical request in trees that differ
apart from the root. -/
def ReadsBelow (c : Compiler) (root : HostPath) : Prop :=
  ∀ {t t' : FileTree} {base : List String}, AgreeOutside base t t' → Apart base root.location →
    ∀ request : CompileRequest, normalize request.realPath = request.realPath →
      c t' request = c t request

section Standard

variable (h : AgreeOutside base t t')
include h

/-- The source of a canonical path is read alike. -/
theorem sourceOf_of_agreeOutside {root : HostPath} (hroot : Apart base root.location)
    {request : CompileRequest} (hreal : normalize request.realPath = request.realPath) :
    sourceOf root t' request = sourceOf root t request := by
  unfold sourceOf
  rw [h.read_eq ((isDown_of_normalized hreal).apart hroot)]

/-- The standard compiler makes the same of a request. -/
theorem standard_of_agreeOutside (hroot : Apart base r.root.location) {request : CompileRequest}
    (hreal : normalize request.realPath = request.realPath) :
    standard r t' request = standard r t request := by
  have hresolve : (fun specifier => (r.resolve specifier request.path).answer t') =
      fun specifier => (r.resolve specifier request.path).answer t :=
    funext fun specifier => resolve_of_agreeOutside h hroot specifier request.path
  unfold standard
  rw [sourceOf_of_agreeOutside h hroot hreal, hresolve]

end Standard

theorem readsBelow_standard (r : Resolver) : (standard r).ReadsBelow r.root :=
  fun h hroot _ hreal => standard_of_agreeOutside h hroot hreal

end Compiler

end WebBundler
