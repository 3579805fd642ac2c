import Mathlib.Data.List.Basic
import WebBundler.Proofs.FileTree.Writing
set_option autoImplicit false

/-!
# Trees that differ below one directory

Two trees agree outside of a directory if they have the same entries there and the same faults
(`AgreeOutside`).  A write below the directory keeps this (`AgreeOutside.of_write`).  What lies
apart from the directory, neither below nor above it, is the same in both trees: what is there,
what is read of it, and what it lists.
-/

namespace WebBundler.FileTree

variable {t t' t'' : FileTree} {base place : List String} {path dir : HostPath}

/-- Neither of two places lies above the other, and they are not the same. -/
structure Apart (base place : List String) : Prop where
  not_below : ¬base <+: place
  not_above : ¬place <+: base

instance (base place : List String) : Decidable (Apart base place) :=
  decidable_of_iff (¬base <+: place ∧ ¬place <+: base)
    ⟨fun h => ⟨h.1, h.2⟩, fun h => ⟨h.not_below, h.not_above⟩⟩

theorem Apart.append (h : Apart base place) (more : List String) :
    Apart base (place ++ more) where
  not_below hbase :=
    (List.prefix_or_prefix_of_prefix hbase (List.prefix_append place more)).elim
      h.not_below h.not_above
  not_above hplace := h.not_above ((List.prefix_append place more).trans hplace)

theorem Apart.symm (h : Apart base place) : Apart place base := ⟨h.not_above, h.not_below⟩

theorem apart_append_left_iff {front : List String} :
    Apart (front ++ base) (front ++ place) ↔ Apart base place := by
  constructor
  · intro h
    exact ⟨fun hbelow => h.not_below ((List.prefix_append_right_inj front).2 hbelow),
      fun habove => h.not_above ((List.prefix_append_right_inj front).2 habove)⟩
  · intro h
    exact ⟨fun hbelow => h.not_below ((List.prefix_append_right_inj front).1 hbelow),
      fun habove => h.not_above ((List.prefix_append_right_inj front).1 habove)⟩

/-- Two trees with the same entries outside of a directory, and the same faults. -/
structure AgreeOutside (base : List String) (t t' : FileTree) : Prop where
  entries : t'.entries.filter (fun e => ¬base <+: e.1) =
    t.entries.filter (fun e => ¬base <+: e.1)
  faults : t'.faults = t.faults

theorem AgreeOutside.refl (base : List String) (t : FileTree) : AgreeOutside base t t :=
  ⟨rfl, rfl⟩

theorem AgreeOutside.trans (h : AgreeOutside base t t') (h' : AgreeOutside base t' t'') :
    AgreeOutside base t t'' :=
  ⟨h'.entries.trans h.entries, h'.faults.trans h.faults⟩

theorem AgreeOutside.of_put {node : Node} (h : base <+: place) :
    AgreeOutside base t (t.put place node) where
  entries := by
    unfold put
    rw [List.filter_append, List.filter_filter]
    have hnew : [(place, node)].filter (fun e => ¬base <+: e.1) = [] := by simp [h]
    rw [hnew, List.append_nil]
    refine List.filter_congr fun e _ => ?_
    by_cases hplace : e.1 = place
    · simp [hplace, h]
    · simp [hplace]
  faults := rfl

theorem AgreeOutside.of_write {content : ByteArray} (h : t.write path content = .ok t')
    (hbelow : base <+: path.location) : AgreeOutside base t t' := by
  rw [(write_eq_ok h).1]
  exact .of_put hbelow

/-! ## What is the same -/

theorem AgreeOutside.find?_eq (h : AgreeOutside base t t') (hplace : ¬base <+: place) :
    t'.entries.find? (·.1 = place) = t.entries.find? (·.1 = place) := by
  have hfilter (entries : List (List String × Node)) :
      entries.find? (·.1 = place) =
        (entries.filter fun e => ¬base <+: e.1).find? (·.1 = place) := by
    rw [List.find?_filter]
    congr 1
    funext e
    by_cases he : e.1 = place
    · simp [he, hplace]
    · simp [he]
  rw [hfilter t'.entries, h.entries, ← hfilter]

theorem AgreeOutside.node?_eq_some_iff (h : AgreeOutside base t t') (hplace : ¬base <+: place)
    {node : Node} (hnode : node ≠ .dir) :
    t'.node? place = some node ↔ t.node? place = some node := by
  rw [FileTree.node?_eq_some_iff hnode, FileTree.node?_eq_some_iff hnode, h.find?_eq hplace]

/-- Nothing below the directory lies below a place that is apart from it. -/
theorem AgreeOutside.any_eq (h : AgreeOutside base t t') (hplace : Apart base place) :
    (t'.entries.any fun e => place.isPrefixOf e.1) = t.entries.any fun e =>
      place.isPrefixOf e.1 := by
  have hfilter (entries : List (List String × Node)) :
      (entries.any fun e => place.isPrefixOf e.1) =
        (entries.filter fun e => ¬base <+: e.1).any fun e => place.isPrefixOf e.1 := by
    rw [List.any_filter]
    congr 1
    funext e
    cases he : place.isPrefixOf e.1 with
    | false => rw [Bool.and_false]
    | true =>
      obtain ⟨more, hmore⟩ := List.isPrefixOf_iff_prefix.1 he
      have hout : ¬base <+: e.1 := hmore ▸ (hplace.append more).not_below
      simp [hout]
  rw [hfilter t'.entries, h.entries, ← hfilter]

theorem AgreeOutside.node?_eq (h : AgreeOutside base t t') (hplace : Apart base place) :
    t'.node? place = t.node? place := by
  unfold node?
  rw [h.find?_eq hplace.not_below, h.any_eq hplace]

theorem AgreeOutside.isBlocked_eq (h : AgreeOutside base t t') (hplace : ¬base <+: place) :
    t'.isBlocked place = t.isBlocked place := by
  have habove : ∀ other, other <+: place → ∀ node, node ≠ .dir →
      (t'.node? other = some node ↔ t.node? other = some node) :=
    fun other hother node hnode =>
      h.node?_eq_some_iff (fun hbase => hplace (hbase.trans hother)) hnode
  rw [Bool.eq_iff_iff, ← not_iff_not, Bool.not_eq_true, Bool.not_eq_true,
    isBlocked_eq_false_iff, isBlocked_eq_false_iff]
  refine forall_congr' fun other => forall_congr' fun hother => forall_congr' fun _ =>
    forall_congr' fun node => ?_
  by_cases hdir : node = .dir
  · simp [hdir]
  · rw [habove other hother node hdir]

theorem AgreeOutside.look_eq (h : AgreeOutside base t t') (hplace : Apart base place) :
    t'.look place = t.look place := by
  unfold look
  rw [h.isBlocked_eq hplace.not_below, h.node?_eq hplace]

theorem AgreeOutside.read_eq (h : AgreeOutside base t t') (hpath : Apart base path.location) :
    t'.read path = t.read path := by
  unfold read attempt contentAt
  rw [h.faults, h.look_eq hpath]

theorem AgreeOutside.metadata_eq (h : AgreeOutside base t t')
    (hpath : Apart base path.location) :
    t'.metadata path = t.metadata path := by
  unfold metadata attempt
  rw [h.faults, h.look_eq hpath]

theorem AgreeOutside.namesAt_eq (h : AgreeOutside base t t') (hplace : Apart base place) :
    t'.namesAt place = t.namesAt place := by
  have hfilter (entries : List (List String × Node)) :
      (entries.filterMap fun e =>
          if place.isPrefixOf e.1 then (e.1.drop place.length).head? else none) =
        (entries.filter fun e => ¬base <+: e.1).filterMap fun e =>
          if place.isPrefixOf e.1 then (e.1.drop place.length).head? else none := by
    rw [List.filterMap_filter]
    refine List.filterMap_congr fun e _ => ?_
    by_cases he : place.isPrefixOf e.1 = true
    · obtain ⟨more, hmore⟩ := List.isPrefixOf_iff_prefix.1 he
      have hout : ¬base <+: e.1 := hmore ▸ (hplace.append more).not_below
      simp [hout]
    · simp [he]
  unfold namesAt
  rw [h.look_eq hplace]
  dsimp only
  rw [hfilter t'.entries, h.entries, ← hfilter]

theorem AgreeOutside.readDir_eq (h : AgreeOutside base t t') (hdir : Apart base dir.location) :
    t'.readDir dir = t.readDir dir := by
  unfold readDir attempt
  rw [h.faults, h.namesAt_eq hdir]

theorem AgreeOutside.isRegular_eq (h : AgreeOutside base t t')
    (hpath : Apart base path.location) :
    t'.isRegular path = t.isRegular path := by
  unfold isRegular
  rw [h.metadata_eq hpath]

theorem AgreeOutside.failureAt?_eq (h : AgreeOutside base t t')
    (hpath : Apart base path.location) : t'.failureAt? path = t.failureAt? path := by
  unfold failureAt?
  rw [h.metadata_eq hpath]

theorem AgreeOutside.failuresIn_eq (h : AgreeOutside base t t') (hnamed : t.Named)
    (hdir : Apart base dir.location) :
    t'.namesIn dir = t.namesIn dir ∧ t'.failuresIn dir = t.failuresIn dir := by
  unfold namesIn failuresIn
  rw [h.readDir_eq hdir]
  refine ⟨rfl, ?_⟩
  split
  · rfl
  · next names hnames =>
    refine List.filterMap_congr fun name hname => h.failureAt?_eq ?_
    have hlisted : name ∈ t.namesIn dir := by
      unfold namesIn
      rwa [hnames]
    rw [hnamed.location_join hlisted]
    exact hdir.append [name]

/-! ## Writes at a place that lies apart -/

/-- What is at a place not below the directory is the same, or no more than a directory in both
trees. -/
theorem AgreeOutside.node?_cases (h : AgreeOutside base t t') (hplace : ¬base <+: place) :
    t'.node? place = t.node? place ∨ (∀ node, t.node? place = some node → node = .dir) ∧
      ∀ node, t'.node? place = some node → node = .dir := by
  by_cases hdir : ∀ node, t.node? place = some node → node = .dir
  · refine .inr ⟨hdir, fun node hnode => ?_⟩
    by_contra hne
    exact hne (hdir node ((h.node?_eq_some_iff hplace hne).1 hnode))
  · push Not at hdir
    obtain ⟨node, hnode, hne⟩ := hdir
    exact .inl (((h.node?_eq_some_iff hplace hne).2 hnode).trans hnode.symm)

theorem writtenAt_of_parent {content : ByteArray}
    (hparent : ∀ node, t.node? place.dropLast = some node → node = .dir) :
    t.writtenAt place content =
      if t.isBlocked place.dropLast then .error .notDirectory
      else
        match t.node? place with
        | some .dir => .error .isDirectory
        | _ => .ok (t.put place (.file content)) := by
  unfold writtenAt
  dsimp only
  cases hnode : t.node? place.dropLast with
  | none => cases t.node? place <;> rfl
  | some node =>
    cases hparent node hnode
    cases t.node? place <;> rfl

/-- There is room for a file at a place in both trees, or in neither for the same reason. -/
theorem AgreeOutside.writtenAt_cases (h : AgreeOutside base t t') (hplace : Apart base place)
    (content : ByteArray) :
    (∃ e, t.writtenAt place content = .error e ∧ t'.writtenAt place content = .error e) ∨
      ∃ written written', t.writtenAt place content = .ok written ∧
        t'.writtenAt place content = .ok written' := by
  have hparent : ¬base <+: place.dropLast :=
    fun hbase => hplace.not_below (hbase.trans (List.dropLast_prefix place))
  obtain hsame | ⟨hdir, hdir'⟩ := h.node?_cases hparent
  · unfold writtenAt
    dsimp only
    rw [h.isBlocked_eq hparent, hsame, h.node?_eq hplace]
    split
    · exact .inl ⟨_, rfl, rfl⟩
    · split
      · exact .inl ⟨_, rfl, rfl⟩
      · exact .inl ⟨_, rfl, rfl⟩
      · simp only [Bool.false_eq_true, if_false]
        split
        · exact .inl ⟨_, rfl, rfl⟩
        · exact .inr ⟨_, _, rfl, rfl⟩
  · rw [writtenAt_of_parent hdir, writtenAt_of_parent hdir', h.isBlocked_eq hparent,
      h.node?_eq hplace]
    split
    · exact .inl ⟨_, rfl, rfl⟩
    · split
      · exact .inl ⟨_, rfl, rfl⟩
      · exact .inr ⟨_, _, rfl, rfl⟩

theorem AgreeOutside.write_cases (h : AgreeOutside base t t') (hpath : Apart base path.location)
    (content : ByteArray) :
    (∃ e, t.write path content = .error e ∧ t'.write path content = .error e) ∨
      ∃ written written', t.write path content = .ok written ∧
        t'.write path content = .ok written' := by
  unfold write attempt
  rw [h.faults]
  split
  · exact .inl ⟨_, rfl, rfl⟩
  · obtain ⟨e, he, he'⟩ | ⟨written, written', hok, hok'⟩ := h.writtenAt_cases hpath content
    · rw [he, he']
      exact .inl ⟨_, rfl, rfl⟩
    · rw [hok, hok']
      exact .inr ⟨_, _, rfl, rfl⟩

/-! ## Files that lie apart -/

/-- No file lies above another thing that can be seen. -/
theorem not_prefix_of_look {other : List String} {node node' : Node}
    (h : t.look place = .ok node) (hother : t.look other = .ok node') (hnode' : node' ≠ .dir)
    (hne : other ≠ place) :
    ¬other <+: place := by
  intro habove
  have hblocked := (look_eq_ok_iff.1 h).1
  exact hnode' (isBlocked_eq_false_iff.1 hblocked other habove hne node'
    (look_eq_ok_iff.1 hother).2)

/-- Two files lie apart. -/
theorem apart_of_look {other : List String} {node node' : Node} (h : t.look place = .ok node)
    (hother : t.look other = .ok node') (hnode : node ≠ .dir) (hnode' : node' ≠ .dir)
    (hne : other ≠ place) : Apart other place where
  not_below := not_prefix_of_look h hother hnode' hne
  not_above := not_prefix_of_look hother h hnode hne.symm

end WebBundler.FileTree
