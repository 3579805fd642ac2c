import WebBundler.ModuleSet
set_option autoImplicit false

/-!
# Merge: what is left to visit

The walks over a module graph end because each step either visits a module of the set that was
not visited before or shortens a list of pending work.  `remaining` counts the modules not
visited yet; it never grows when more count as visited and drops when a module of the set does.
-/

namespace WebBundler.ModuleSet

/-- How many modules of the set are not yet done. -/
def remaining (set : ModuleSet) (done : QueryPath → Bool) : Nat :=
  (set.paths.filter fun p => !done p).length

private theorem length_filter_le {l : List QueryPath} {f g : QueryPath → Bool}
    (h : ∀ p, g p = true → f p = true) : (l.filter g).length ≤ (l.filter f).length := by
  induction l with
  | nil => simp
  | cons a l ih =>
    by_cases hg : g a = true
    · simp [hg, h a hg, ih]
    · by_cases hf : f a = true
      · simp [hg, hf]; omega
      · simp [hg, hf, ih]

private theorem length_filter_lt {l : List QueryPath} {f g : QueryPath → Bool} {x : QueryPath}
    (h : ∀ p, g p = true → f p = true) (hx : x ∈ l) (hf : f x = true) (hg : g x = false) :
    (l.filter g).length < (l.filter f).length := by
  induction l with
  | nil => simp at hx
  | cons a l ih =>
    rcases List.mem_cons.1 hx with rfl | hx
    · have := length_filter_le (l := l) h
      simp [hf, hg]; omega
    · have := ih hx
      by_cases hga : g a = true
      · simp [hga, h a hga, this]
      · by_cases hfa : f a = true
        · simp [hga, hfa]; omega
        · simp [hga, hfa, this]

theorem remaining_le {set : ModuleSet} {done done' : QueryPath → Bool}
    (h : ∀ p, done p = true → done' p = true) : set.remaining done' ≤ set.remaining done := by
  refine length_filter_le fun p hp => ?_
  cases hd : done p with
  | false => rfl
  | true => simp [h p hd] at hp

theorem remaining_lt {set : ModuleSet} {done done' : QueryPath → Bool} {x : QueryPath}
    (h : ∀ p, done p = true → done' p = true) (hx : x ∈ set.paths) (hold : done x = false)
    (hnew : done' x = true) : set.remaining done' < set.remaining done := by
  refine length_filter_lt (x := x) (fun p hp => ?_) hx (by simp [hold]) (by simp [hnew])
  cases hd : done p with
  | false => rfl
  | true => simp [h p hd] at hp

end WebBundler.ModuleSet
