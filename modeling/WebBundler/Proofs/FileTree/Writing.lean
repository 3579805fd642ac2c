import WebBundler.Proofs.FileTree.Listing
set_option autoImplicit false

/-!
# What a write leaves as it was

A write that succeeds puts one file at one place.  It takes no directory away and goes below no
file, so every other file stays where it is, with its bytes (`look_write_of_ne`).

A file is found by whoever lists the directories above it: each of them lists the name that
leads on to the file (`mem_of_readDir`).
-/

namespace WebBundler.FileTree

variable {t t' : FileTree} {place other : List String} {content bytes : ByteArray}
  {path : HostPath}

/-! ## Files at places -/

theorem mem_above_iff : other ∈ above place ↔ other <+: place ∧ other ≠ place := by
  unfold above
  rw [List.mem_map]
  constructor
  · rintro ⟨n, hn, rfl⟩
    refine ⟨List.take_prefix n place, fun hsame => ?_⟩
    have hlength := congrArg List.length hsame
    rw [List.mem_range] at hn
    rw [List.length_take] at hlength
    omega
  · rintro ⟨hbegins, hne⟩
    have hlength : other.length ≠ place.length := fun hsame => hne (hbegins.eq_of_length hsame)
    have hle := hbegins.length_le
    exact ⟨other.length, List.mem_range.2 (by omega), (List.prefix_iff_eq_take.1 hbegins).symm⟩

/-- What is no directory is at its place by itself. -/
theorem node?_eq_some_iff {node : Node} (hnode : node ≠ .dir) :
    t.node? place = some node ↔ ∃ entry, t.entries.find? (·.1 = place) =
      some (entry, node) := by
  unfold node?
  split
  · next entry found hfound =>
    rw [hfound]
    constructor
    · rintro ⟨⟩
      exact ⟨entry, rfl⟩
    · rintro ⟨_, ⟨⟩⟩
      rfl
  · next hnone =>
    rw [hnone]
    constructor
    · intro h
      split at h
      · exact absurd (Option.some.inj h).symm hnode
      · cases h
    · rintro ⟨_, ⟨⟩⟩

theorem isBlocked_eq_false_iff : t.isBlocked place = false ↔
    ∀ other, other <+: place → other ≠ place → ∀ node, t.node? other = some node →
    node = .dir := by
  unfold isBlocked
  rw [List.any_eq_false]
  constructor
  · intro h other hbegins hne node hnode
    have hfree := h other (mem_above_iff.2 ⟨hbegins, hne⟩)
    rw [hnode] at hfree
    cases node with
    | dir => rfl
    | file content => exact absurd rfl hfree
    | special => exact absurd rfl hfree
  · intro h other hother
    obtain ⟨hbegins, hne⟩ := mem_above_iff.1 hother
    cases hnode : t.node? other with
    | none => exact Bool.false_ne_true
    | some node =>
      rw [h other hbegins hne node hnode]
      exact Bool.false_ne_true

theorem look_eq_ok_iff {node : Node} :
    t.look place = .ok node ↔ t.isBlocked place = false ∧ t.node? place = some node := by
  unfold look
  cases t.isBlocked place with
  | true => exact ⟨fun h => (nomatch h), fun h => (nomatch h.1)⟩
  | false =>
    rw [if_neg Bool.false_ne_true]
    cases t.node? place with
    | none => exact ⟨fun h => (nomatch h), fun h => (nomatch h.2)⟩
    | some found =>
      constructor
      · rintro ⟨⟩
        exact ⟨rfl, rfl⟩
      · rintro ⟨-, ⟨⟩⟩
        rfl

theorem find?_of_look (h : t.look place = .ok (.file bytes)) :
    t.entries.find? (·.1 = place) = some (place, .file bytes) := by
  have hnode : (Node.file bytes) ≠ .dir := nofun
  obtain ⟨entry, hentry⟩ := (node?_eq_some_iff hnode).1 (look_eq_ok_iff.1 h).2
  have hplace : entry = place := by simpa using List.find?_some hentry
  rw [hentry, hplace]

theorem mem_entries_of_look {node : Node} (hnode : node ≠ .dir) (h : t.look place = .ok node) :
    (place, node) ∈ t.entries := by
  obtain ⟨entry, hentry⟩ := (node?_eq_some_iff hnode).1 (look_eq_ok_iff.1 h).2
  have hplace : entry = place := by simpa using List.find?_some hentry
  exact hplace ▸ List.mem_of_find?_eq_some hentry

/-- A file lies in directories only. -/
theorem look_above {name : String} {rest : List String}
    (h : t.look (place ++ name :: rest) = .ok (.file bytes)) :
    t.look place = .ok .dir := by
  have hfree := isBlocked_eq_false_iff.1 (look_eq_ok_iff.1 h).1
  have hbegins : place <+: place ++ name :: rest := List.prefix_append _ _
  have hne : ∀ other, other <+: place → other ≠ place ++ name :: rest := by
    intro other hother hsame
    have hlength := hother.length_le
    rw [hsame, List.length_append, List.length_cons] at hlength
    omega
  refine look_eq_ok_iff.2 ⟨isBlocked_eq_false_iff.2 fun other hother _ =>
    hfree other (hother.trans hbegins) (hne other hother), ?_⟩
  cases hplace : t.node? place with
  | some node => rw [hfree place hbegins (hne place (List.prefix_refl _)) node hplace]
  | none =>
    have hany : (t.entries.any fun e => place.isPrefixOf e.1) = true :=
      List.any_eq_true.2 ⟨_, List.mem_of_find?_eq_some (find?_of_look h),
        List.isPrefixOf_iff_prefix.2 hbegins⟩
    unfold node? at hplace
    split at hplace
    · cases hplace
    · rw [hany, Bool.or_true, if_pos rfl] at hplace
      cases hplace

/-- The same is read of two trees with the same file and the same faults. -/
theorem read_congr (hfaults : t'.faults = t.faults)
    (h : t.look path.location = .ok (.file bytes))
    (h' : t'.look path.location = .ok (.file bytes)) : t'.read path = t.read path := by
  unfold read attempt contentAt
  rw [hfaults, h, h']

theorem read_of_location {other : HostPath} (hplace : path.location = other.location)
    (h : t.read path = .ok content) : t.read other = .ok content := by
  unfold read attempt at h ⊢
  rw [hplace] at h
  split at h
  · cases h
  · split at h
    · exact h
    · cases h

/-- The name that leads from a directory to a file is listed in the directory. -/
theorem mem_of_readDir {dir : HostPath} {names rest : List String} {name : String}
    (hfile : t.look (dir.location ++ name :: rest) = .ok (.file bytes))
    (hread : t.readDir dir = .ok names) :
    name ∈ names := by
  have hnames := attempt_eq_ok hread
  unfold namesAt at hnames
  rw [look_above hfile] at hnames
  cases hnames
  rw [List.mem_mergeSort, List.mem_eraseDups, List.mem_filterMap]
  refine ⟨_, List.mem_of_find?_eq_some (find?_of_look hfile), ?_⟩
  rw [if_pos (List.isPrefixOf_iff_prefix.2 (List.prefix_append _ _)), List.drop_left]
  rfl

/-! ## Writes -/

theorem find?_put_self (t : FileTree) (place : List String) (node : Node) :
    (t.put place node).entries.find? (·.1 = place) = some (place, node) := by
  have hnone : (t.entries.filter (·.1 ≠ place)).find? (·.1 = place) = none := by
    rw [List.find?_eq_none]
    intro entry hentry
    simpa using (List.mem_filter.1 hentry).2
  unfold put
  rw [List.find?_append, hnone]
  simp

theorem find?_put_of_ne {node : Node} (h : other ≠ place) :
    (t.put place node).entries.find? (·.1 = other) = t.entries.find? (·.1 = other) := by
  have hkeep : (t.entries.filter (·.1 ≠ place)).find? (·.1 = other) =
      t.entries.find? (·.1 = other) := by
    rw [List.find?_filter]
    congr 1
    funext entry
    by_cases hentry : entry.1 = other
    · simp [hentry, h]
    · simp [hentry]
  unfold put
  rw [List.find?_append, hkeep]
  cases t.entries.find? (·.1 = other) with
  | some entry => rfl
  | none => simp [Ne.symm h]

/-- A place stays free if nothing is put above it. -/
theorem isBlocked_put {node : Node} (hblocked : t.isBlocked other = false)
    (hplace : place <+: other → place = other) :
    (t.put place node).isBlocked other = false := by
  rw [isBlocked_eq_false_iff] at hblocked ⊢
  intro above habove hne found hfound
  by_cases hdir : found = .dir
  · exact hdir
  · have hother : above ≠ place := fun hsame => hne (hsame.trans (hplace (hsame ▸ habove)))
    rw [node?_eq_some_iff hdir, find?_put_of_ne hother, ← node?_eq_some_iff hdir] at hfound
    exact hblocked above habove hne found hfound

/-- A write succeeds where there are only directories above the place and there is none at
it. -/
theorem write_eq_ok (h : t.write path content = .ok t') :
    t' = t.put path.location (.file content) ∧ t.isBlocked path.location = false ∧
      t.node? path.location ≠ some .dir := by
  have hwritten := attempt_eq_ok h
  unfold writtenAt at hwritten
  dsimp only at hwritten
  generalize path.location = place at hwritten ⊢
  by_cases hblocked : t.isBlocked place.dropLast = true
  · rw [if_pos hblocked] at hwritten
    cases hwritten
  rw [if_neg hblocked] at hwritten
  rw [Bool.not_eq_true, isBlocked_eq_false_iff] at hblocked
  split at hwritten
  · cases hwritten
  · cases hwritten
  · next hfile hspecial =>
    rw [if_neg Bool.false_ne_true] at hwritten
    split at hwritten
    · cases hwritten
    · next hdir =>
      refine ⟨(Except.ok.inj hwritten).symm, isBlocked_eq_false_iff.2
        fun above habove hne node hnode => ?_, hdir⟩
      have hparent : above <+: place.dropLast := by
        rcases List.eq_nil_or_concat place with rfl | ⟨front, last, rfl⟩
        · exact habove
        · rw [List.concat_eq_append, List.prefix_concat_iff] at habove
          rw [List.concat_eq_append, List.dropLast_concat]
          exact habove.resolve_left (by rwa [List.concat_eq_append] at hne)
      by_cases hsame : above = place.dropLast
      · subst hsame
        cases node with
        | dir => rfl
        | file bytes => exact (hfile bytes hnode).elim
        | special => exact (hspecial hnode).elim
      · exact hblocked above hparent hsame node hnode

theorem isOk_write (t : FileTree) (path : HostPath) (a b : ByteArray) :
    (t.write path a).isOk = (t.write path b).isOk := by
  unfold write attempt writtenAt
  split
  · rfl
  · dsimp only
    generalize t.node? path.location.dropLast = parent
    cases t.isBlocked path.location.dropLast with
    | true => rfl
    | false =>
      cases t.node? path.location with
      | none => rcases parent with _ | _ | _ | _ <;> rfl
      | some node => cases node <;> rcases parent with _ | _ | _ | _ <;> rfl

theorem look_write_self (h : t.write path content = .ok t') :
    t'.look path.location = .ok (.file content) := by
  obtain ⟨rfl, hfree, -⟩ := write_eq_ok h
  have hnode : (Node.file content) ≠ .dir := nofun
  exact look_eq_ok_iff.2
    ⟨isBlocked_put hfree fun _ => rfl, (node?_eq_some_iff hnode).2 ⟨_, find?_put_self t _ _⟩⟩

/-- Every other file stays as it is. -/
theorem look_write_of_ne (h : t.write path content = .ok t') (hne : path.location ≠ place)
    (hfile : t.look place = .ok (.file bytes)) : t'.look place = .ok (.file bytes) := by
  obtain ⟨rfl, -, hnode⟩ := write_eq_ok h
  have hfound : (Node.file bytes) ≠ .dir := nofun
  refine look_eq_ok_iff.2 ⟨isBlocked_put (look_eq_ok_iff.1 hfile).1 fun hbegins => ?_, ?_⟩
  · -- Above the file there is a directory, which no write replaces.
    obtain ⟨_ | ⟨name, rest⟩, rfl⟩ := hbegins
    · exact (List.append_nil _).symm
    · exact absurd (look_eq_ok_iff.1 (look_above hfile)).2 hnode
  · rw [node?_eq_some_iff hfound, find?_put_of_ne hne.symm]
    exact ⟨_, find?_of_look hfile⟩

theorem look_of_write_of_ne (h : t.write path content = .ok t') (hne : path.location ≠ place)
    (hfile : t'.look place = .ok (.file bytes)) : t.look place = .ok (.file bytes) := by
  obtain ⟨rfl, -, -⟩ := write_eq_ok h
  obtain ⟨hfree, hnode⟩ := look_eq_ok_iff.1 hfile
  rw [isBlocked_eq_false_iff] at hfree
  have hwritten : (Node.file content) ≠ .dir := nofun
  have hfound : (Node.file bytes) ≠ .dir := nofun
  refine look_eq_ok_iff.2
    ⟨isBlocked_eq_false_iff.2 fun other hbegins hother node hold => ?_, ?_⟩
  · by_cases hdir : node = .dir
    · exact hdir
    by_cases hsame : other = path.location
    · -- The file that was written would lie above this one.
      subst hsame
      cases hfree _ hbegins hother _
        ((node?_eq_some_iff hwritten).2 ⟨_, find?_put_self t path.location _⟩)
    · rw [node?_eq_some_iff hdir, ← find?_put_of_ne hsame, ← node?_eq_some_iff hdir] at hold
      exact hfree other hbegins hother node hold
  · rwa [node?_eq_some_iff hfound, find?_put_of_ne hne.symm, ← node?_eq_some_iff hfound]
      at hnode

/-- The bytes of the file at a place, if there is one. -/
def fileAt? (t : FileTree) (place : List String) : Option ByteArray :=
  match t.look place with
  | .ok (.file bytes) => some bytes
  | _ => none

theorem fileAt?_eq_some_iff :
    t.fileAt? place = some bytes ↔ t.look place = .ok (.file bytes) := by
  unfold fileAt?
  split
  · next found hfound =>
    rw [hfound]
    constructor
    · rintro ⟨⟩
      rfl
    · rintro ⟨⟩
      rfl
  · next hnone =>
    constructor
    · rintro ⟨⟩
    · intro h
      exact absurd h (hnone bytes)

theorem fileAt?_congr (h : t'.entries = t.entries) (place : List String) :
    t'.fileAt? place = t.fileAt? place := by
  unfold fileAt? look isBlocked node?
  rw [h]

/-- After a write the files are those of before, and the one that was written. -/
theorem fileAt?_write (h : t.write path content = .ok t') (place : List String) :
    t'.fileAt? place = if path.location = place then some content else t.fileAt? place := by
  split
  · next hplace => exact fileAt?_eq_some_iff.2 (hplace ▸ look_write_self h)
  · next hne =>
    apply Option.ext
    intro bytes
    rw [fileAt?_eq_some_iff, fileAt?_eq_some_iff]
    exact ⟨look_of_write_of_ne h hne, look_write_of_ne h hne⟩

/-- There is a file at a place. -/
def HasFile (t : FileTree) (place : List String) : Prop :=
  ∃ bytes, t.look place = .ok (.file bytes)

/-- A write takes no file away. -/
theorem HasFile.write (hfile : t.HasFile place) (h : t.write path content = .ok t') :
    t'.HasFile place := by
  by_cases hplace : path.location = place
  · exact ⟨content, hplace ▸ look_write_self h⟩
  · obtain ⟨bytes, hbytes⟩ := hfile
    exact ⟨bytes, look_write_of_ne h hplace hbytes⟩

theorem faults_write (h : t.write path content = .ok t') : t'.faults = t.faults := by
  obtain ⟨rfl, -, -⟩ := write_eq_ok h
  rfl

/-! ## Writes that are made to fail -/

/-- Writes to a place are made to fail. -/
def writeFails (t : FileTree) (place : List String) : Bool :=
  t.faults.any fun f => f.access = .write ∧ f.place = place

/-- A write to a free place fails only where writes are made to fail. -/
theorem isOk_write_of_free (hplace : path.location ≠ [])
    (hfree : t.isBlocked path.location = false) (hdir : t.node? path.location ≠ some .dir) :
    (t.write path content).isOk = !t.writeFails path.location := by
  have hwritten : t.writtenAt path.location content =
      .ok (t.put path.location (.file content)) := by
    generalize path.location = place at hplace hfree hdir
    rw [isBlocked_eq_false_iff] at hfree
    have hlength : place.dropLast.length < place.length := by
      have hpos := List.length_pos_iff.2 hplace
      rw [List.length_dropLast]
      omega
    have hne : ∀ other, other <+: place.dropLast → other ≠ place := by
      rintro other hbegins rfl
      exact absurd hbegins.length_le (Nat.not_le_of_lt hlength)
    have habove : t.isBlocked place.dropLast = false :=
      isBlocked_eq_false_iff.2 fun other hbegins _ =>
        hfree other (hbegins.trans place.dropLast_prefix) (hne other hbegins)
    unfold writtenAt
    dsimp only
    rw [habove, if_neg Bool.false_ne_true]
    split
    · next bytes hfile => cases hfree _ place.dropLast_prefix (hne _ List.prefix_rfl) _ hfile
    · next hspecial => cases hfree _ place.dropLast_prefix (hne _ List.prefix_rfl) _ hspecial
    · rw [if_neg Bool.false_ne_true]
      split
      · next hfound => exact absurd hfound hdir
      · rfl
  unfold write attempt writeFails
  rw [hwritten, ← List.isSome_find?]
  cases t.faults.find? fun f => decide (f.access = .write ∧ f.place = path.location) with
  | none => rfl
  | some fault => rfl

theorem node?_put_ne_dir (hdir : t.node? other ≠ some .dir)
    (hplace : other <+: place → other = place) :
    (t.put place (.file content)).node? other ≠ some .dir := by
  by_cases hsame : other = place
  · have hnode : (Node.file content) ≠ .dir := nofun
    rw [hsame, (node?_eq_some_iff hnode).2 ⟨_, find?_put_self t place _⟩]
    exact fun h => hnode (Option.some.inj h)
  · have hbelow : ((t.put place (.file content)).entries.any fun e => other.isPrefixOf e.1) =
        true →
        (t.entries.any fun e => other.isPrefixOf e.1) = true := by
      rw [List.any_eq_true, List.any_eq_true]
      rintro ⟨e, he, hbegins⟩
      unfold put at he
      rcases List.mem_append.1 he with hold | hnew
      · exact ⟨e, (List.mem_filter.1 hold).1, hbegins⟩
      · rw [List.mem_singleton.1 hnew, List.isPrefixOf_iff_prefix] at hbegins
        exact absurd (hplace hbegins) hsame
    unfold node? at hdir ⊢
    rw [find?_put_of_ne hsame]
    split
    · next found =>
      rw [found] at hdir
      exact hdir
    · next hnone =>
      rw [hnone] at hdir
      intro hput
      split at hput
      · next habove =>
        rw [Bool.or_eq_true] at habove
        exact hdir (if_pos (Bool.or_eq_true _ _ ▸ habove.imp_right hbelow))
      · cases hput

end WebBundler.FileTree
