import FileRouter.Proofs.Memory.Clearing
import FileRouter.Proofs.Memory.Run
/-!
Listings, parents and names.

A listing is made of the names below a key, a parent by taking the last name of a key away, and a name by taking
it alone. On a drive that a run has led to these are three views of one tree. A directory lists, in the order of the
code points, the canonical paths of exactly those entries whose parent it is, and each of them is the path of the
directory, a slash and the name. So a walk that goes from listing to listing meets every entry once
(`outcome_walk`, `Tree.WellFormed.perm_preorder`), and after as many levels as there are entries it is over.
-/

namespace FileRouter

open KeyMap

/-! ### Walks -/

/-- The paths at and below a path, each in front of what is listed for it. It ends with the failure `endless` below a
given number of levels. -/
def Store.walk {σ η : Type} (store : Store σ η) : Nat → Text → Call σ (List Text)
  | 0, _ => throw .endless
  | levels + 1, path => do
    if ← store.isDirectory path then
      let below ← (← store.listFiles path).mapM (walk store levels)
      pure (path :: below.flatten)
    else pure [path]

/-- The keys at and below a key, each in front of those below it, siblings in the order of their names. -/
def Tree.preorder (tree : Tree) : Nat → Key → List Key
  | 0, _ => []
  | levels + 1, key => key :: (tree.childrenNames key).flatMap fun name => preorder tree levels (key ++ [name])

namespace Tree

variable {tree : Tree} {key other : Key} {levels : Nat}

theorem prefix_of_mem_preorder (h : other ∈ tree.preorder levels key) : key <+: other := by
  induction levels generalizing key with
  | zero => simp [preorder] at h
  | succ levels ih =>
    rw [preorder, List.mem_cons, List.mem_flatMap] at h
    rcases h with rfl | ⟨name, -, hbelow⟩
    · exact List.prefix_refl _
    · exact (List.prefix_append key [name]).trans (ih hbelow)

theorem has_of_mem_preorder (hkey : tree.has key = true) (h : other ∈ tree.preorder levels key) :
    tree.has other = true := by
  induction levels generalizing key with
  | zero => simp [preorder] at h
  | succ levels ih =>
    rw [preorder, List.mem_cons, List.mem_flatMap] at h
    rcases h with rfl | ⟨name, hname, hbelow⟩
    · exact hkey
    · exact ih (mem_childrenNames.mp hname) hbelow

/-- With enough levels every entry below a key is met. -/
theorem WellFormed.mem_preorder (h : tree.WellFormed) {rest : Key} (hhas : tree.has (key ++ rest) = true)
    (hlevels : rest.length < levels) : key ++ rest ∈ tree.preorder levels key := by
  induction levels generalizing key rest with
  | zero => omega
  | succ levels ih =>
    rw [preorder, List.mem_cons, List.mem_flatMap]
    cases rest with
    | nil => exact Or.inl (List.append_nil key)
    | cons name rest =>
      -- the way down leads through the child with the first of the names
      obtain ⟨node, hnode⟩ := has_iff.mp hhas
      have hbelow : (key ++ name :: rest).isBelow key = true := by simp [Key.isBelow_iff]
      obtain ⟨first, rest', hsplit, hfirst⟩ := h.exists_child hnode hbelow
      obtain ⟨rfl, -⟩ := List.cons.inj (List.append_cancel_left hsplit)
      have hcut : key ++ name :: rest = key ++ [name] ++ rest := by simp
      rw [hcut] at hhas ⊢
      exact Or.inr ⟨name, hfirst, ih hhas (Nat.lt_of_succ_lt_succ hlevels)⟩

/-- More levels than there are entries change nothing. -/
theorem WellFormed.preorder_add (h : tree.WellFormed) (hhas : tree.has key = true)
    (hlevels : tree.length ≤ levels + key.length) (more : Nat) :
    tree.preorder (levels + more) key = tree.preorder levels key := by
  induction levels generalizing key with
  | zero =>
    obtain ⟨node, hnode⟩ := has_iff.mp hhas
    have hlt := h.rooted.length_lt hnode
    omega
  | succ levels ih =>
    rw [Nat.add_right_comm, preorder, preorder]
    refine congrArg (key :: ·) (List.flatMap_congr fun name hname => ih (mem_childrenNames.mp hname) ?_)
    rw [List.length_append, List.length_singleton]
    omega

/-- No entry is met twice: what lies below one name does not lie below another. -/
theorem WellFormed.nodup_preorder (h : tree.WellFormed) (levels : Nat) (key : Key) :
    (tree.preorder levels key).Nodup := by
  induction levels generalizing key with
  | zero => exact List.nodup_nil
  | succ levels ih =>
    rw [preorder, List.nodup_cons, List.nodup_flatMap]
    refine ⟨fun hself => ?_, fun name _ => ih _, (childrenNames_nodup h.distinct key).imp ?_⟩
    · obtain ⟨name, -, hbelow⟩ := List.mem_flatMap.mp hself
      have hlength := (prefix_of_mem_preorder hbelow).length_le
      rw [List.length_append, List.length_singleton] at hlength
      omega
    · -- a key below both would have both names at one place
      intro a b hab other ha hb
      obtain ⟨resta, rfl⟩ := prefix_of_mem_preorder ha
      obtain ⟨restb, hsame⟩ := prefix_of_mem_preorder hb
      rw [List.append_assoc, List.append_assoc, List.append_right_inj] at hsame
      exact hab (List.cons.inj hsame).1.symm

/-- From the root every entry is met, and met once. -/
theorem WellFormed.perm_preorder (h : tree.WellFormed) (hlevels : tree.length ≤ levels) :
    (tree.preorder levels []).Perm (tree.map Prod.fst) := by
  rw [List.perm_ext_iff_of_nodup (h.nodup_preorder levels []) h.distinct]
  intro key
  constructor
  · intro hm
    obtain ⟨root, hroot, -⟩ := h.root
    obtain ⟨node, hnode⟩ := has_iff.mp (has_of_mem_preorder (has_iff.mpr ⟨root, hroot⟩) hm)
    exact List.mem_map.mpr ⟨_, mem_of_get? hnode, rfl⟩
  · -- no key is longer than the tree has entries, so enough levels are walked
    intro hm
    obtain ⟨entry, hentry, rfl⟩ := List.mem_map.mp hm
    have hnode := get?_of_mem h.distinct hentry
    have hhas : tree.has ([] ++ entry.1) = true := has_of_mem hentry
    exact h.mem_preorder hhas (Nat.lt_of_lt_of_le (h.rooted.length_lt hnode) hlevels)

end Tree

namespace Drive

open Call

/-! ### What a drive answers -/

/-- A drive answers a request, at any time, and is left as it was. -/
def Answers (s : Drive × TokenSource) (request : Request) (answer : request.Reply Nat) : Prop :=
  ∀ now, (perform now request).outcome s = (.ok answer, s)

variable {s : Drive × TokenSource} {path canonical : Text} {key : Key} {name : Text}

theorem answers_canonicalPath (s : Drive × TokenSource) (path : Text) :
    Answers s (.canonicalPath path) (s.1.pathOf (s.1.keyOf path)) :=
  fun _ => rfl

theorem answers_name (s : Drive × TokenSource) (path : Text) : Answers s (.name path) (s.1.keyOf path).name :=
  fun _ => rfl

/-- A drive gives one answer only. -/
theorem Answers.unique {request : Request} {first second : request.Reply Nat} (hf : Answers s request first)
    (hs : Answers s request second) : first = second :=
  Except.ok.inj (Prod.mk.inj ((hf 0).symm.trans (hs 0))).1

theorem answers_exists (s : Drive × TokenSource) (path : Text) :
    Answers s (.exists path) (s.1.tree.has (s.1.keyOf path)) :=
  fun _ => rfl

theorem answers_exists_iff : Answers s (.exists path) true ↔ s.1.tree.has (s.1.keyOf path) = true :=
  ⟨fun h => (answers_exists s path).unique h, fun h => h ▸ answers_exists s path⟩

theorem answers_isDirectory_iff : Answers s (.isDirectory path) true ↔ s.1.tree.HasDirectory (s.1.keyOf path) := by
  have hself : Answers s (.isDirectory path) ((s.1.node? path).any Node.isDirectory) := fun _ => rfl
  have hiff : (s.1.node? path).any Node.isDirectory = true ↔ s.1.tree.HasDirectory (s.1.keyOf path) := by
    rw [Option.any_eq_true]
    rfl
  exact ⟨fun h => hiff.mp (hself.unique h), fun h => hiff.mpr h ▸ hself⟩

theorem answers_parent_iff :
    Answers s (.parent path) (some canonical) ↔
      s.1.keyOf path ≠ [] ∧ s.1.pathOf (s.1.keyOf path).parent = canonical := by
  have hself : Answers s (.parent path)
      (if s.1.keyOf path = [] then none else some (s.1.pathOf (s.1.keyOf path).parent)) := fun _ => rfl
  constructor
  · intro h
    have hsame := hself.unique h
    split_ifs at hsame with hroot
    exact ⟨hroot, Option.some.inj hsame⟩
  · rintro ⟨hroot, rfl⟩
    rwa [if_neg hroot] at hself

theorem answers_listFiles (h : s.1.tree.HasDirectory (s.1.keyOf path)) :
    Answers s (.listFiles path)
      ((s.1.tree.childrenNames (s.1.keyOf path)).map fun name => s.1.pathOf (s.1.keyOf path ++ [name])) := by
  obtain ⟨node, hnode, hdir⟩ := h
  intro now
  rw [perform, outcome_plain, outcome_listFiles, hnode]
  simp [hdir]

/-! ### The paths that are listed -/

/-- The path of a directory, one slash, and the name of an entry in it. -/
theorem pathOf_append_singleton {drive : Drive} (hkey : key.Proper) (name : Text) :
    drive.pathOf (key ++ [name]) = Text.dropTrailing '/' (drive.pathOf key) ++ '/' :: name := by
  have hcolon : (drive.scheme ++ [Scheme.separator]).getLast? ≠ some '/' := by
    simp [Scheme.separator]
  rw [pathOf, pathOf, Scheme.join, Scheme.join, Key.toText_append_singleton]
  -- the path of the root ends with a slash, which must not be doubled, and no other path does
  by_cases hroot : key = []
  · have hpath : drive.scheme ++ Scheme.separator :: Key.toText key = drive.scheme ++ [Scheme.separator] ++ ['/'] := by
      simp [hroot, Key.toText]
    rw [hpath, Text.dropTrailing_concat_self, Text.dropTrailing_of_getLast? hcolon, if_pos hroot]
    simp
  · have hlast : (drive.scheme ++ Scheme.separator :: Key.toText key).getLast? ≠ some '/' := by
      have hname := Key.getLast?_toText hkey hroot
      rw [List.getLast?_append, List.getLast?_cons]
      cases hl : key.toText.getLast? with
      | none => exact absurd (List.getLast?_eq_none_iff.mp hl) (by cases key <;> simp_all [Key.toText])
      | some c => simpa [hl] using hname
    rw [Text.dropTrailing_of_getLast? hlast, if_neg hroot]
    simp

/-- The paths in a directory stand in the order of the names. -/
theorem pairwise_paths {drive : Drive} (hkey : key.Proper) {names : List Text}
    (h : names.Pairwise fun a b => Text.le a b = true ∧ a ≠ b) :
    (names.map fun name => drive.pathOf (key ++ [name])).Pairwise fun a b => Text.le a b = true ∧ a ≠ b := by
  refine h.map _ fun a b hab => ?_
  rw [pathOf_append_singleton hkey, pathOf_append_singleton hkey, Text.le_append_left]
  exact ⟨by simpa [Text.le] using hab.1, by simpa using hab.2⟩

/-- The paths in a directory are those of the entries that have it as their parent. -/
theorem mem_paths_iff (hw : s.1.tree.WellFormed) (hscheme : s.1.scheme ≠ []) (hkey : key.Proper) {entry : Text} :
    entry ∈ (s.1.tree.childrenNames key).map (fun name => s.1.pathOf (key ++ [name])) ↔
      ∃ path, Answers s (.exists path) true ∧ Answers s (.parent path) (some (s.1.pathOf key)) ∧
        Answers s (.canonicalPath path) entry := by
  simp only [List.mem_map, mem_childrenNames, answers_exists_iff, answers_parent_iff]
  constructor
  · -- the path of the longer key is its own canonical path
    rintro ⟨name, hhas, rfl⟩
    obtain ⟨node, hnode⟩ := has_iff.mp hhas
    have hread := keyOf_pathOf hscheme (hw.proper hnode)
    refine ⟨s.1.pathOf (key ++ [name]), by rwa [hread], ⟨by simp [hread], ?_⟩, ?_⟩
    · rw [hread, Key.parent_append_singleton]
    · have hcanonical := answers_canonicalPath s (s.1.pathOf (key ++ [name]))
      rwa [hread] at hcanonical
  · rintro ⟨path, hhas, ⟨hroot, hparent⟩, hcanonical⟩
    have hproper := s.1.keyOf_proper path
    -- both canonical paths are read as keys again, so the parents are equal as keys
    have hsame : (s.1.keyOf path).parent = key := by
      rw [← keyOf_pathOf hscheme hproper.parent, hparent, keyOf_pathOf hscheme hkey]
    have hcut := Key.parent_append_name hroot
    rw [hsame] at hcut
    refine ⟨(s.1.keyOf path).name, by rwa [hcut], ?_⟩
    rw [hcut]
    exact (answers_canonicalPath s path).unique hcanonical

/-! ### The walk of a drive -/

/-- Calls that only answer, one after the other. -/
theorem outcome_mapM {σ α β : Type} {f : α → Call σ β} {g : α → β} {t : σ} {values : List α}
    (h : ∀ value ∈ values, (f value).outcome t = (.ok (g value), t)) :
    (values.mapM f).outcome t = (.ok (values.map g), t) := by
  induction values with
  | nil => rw [List.mapM_nil, outcome_pure, List.map_nil]
  | cons value values ih =>
    rw [List.mapM_cons, outcome_bind, h value List.mem_cons_self]
    simp only
    rw [outcome_bind, ih fun other ho => h other (List.mem_cons_of_mem _ ho)]
    rfl

/-- A walk over a drive meets the entries in front of which it starts in the order of the tree. -/
theorem outcome_walk (hw : s.1.tree.WellFormed) (hscheme : s.1.scheme ≠ []) (now : Int) {levels : Nat}
    (hhas : s.1.tree.has key = true) (hlevels : s.1.tree.length ≤ levels + key.length) :
    ((alone now).walk levels (s.1.pathOf key)).outcome s =
      (.ok ((s.1.tree.preorder levels key).map s.1.pathOf), s) := by
  induction levels generalizing key with
  | zero =>
    obtain ⟨node, hnode⟩ := has_iff.mp hhas
    have hlt := hw.rooted.length_lt hnode
    omega
  | succ levels ih =>
    obtain ⟨node, hnode⟩ := has_iff.mp hhas
    have hread := keyOf_pathOf hscheme (hw.proper hnode)
    have hdirectory : ((alone now).isDirectory (s.1.pathOf key)).outcome s = (.ok node.isDirectory, s) := by
      show (Except.ok ((s.1.node? (s.1.pathOf key)).any Node.isDirectory), s) = _
      rw [node?, hread, hnode]
      rfl
    rw [Store.walk, outcome_bind, hdirectory, Tree.preorder]
    simp only
    cases hdir : node.isDirectory with
    | false =>
      -- nothing lies below a file, so the order of the tree stops there too
      have hnone : s.1.tree.childrenNames key = [] := by
        refine List.eq_nil_iff_forall_not_mem.mpr fun name hname => ?_
        obtain ⟨below, hbelow⟩ := has_iff.mp (mem_childrenNames.mp hname)
        obtain ⟨other, hother, hotherdir⟩ := hw.rooted.above hbelow (List.cons_ne_nil name [])
        rw [hnode, Option.some.injEq] at hother
        simp [← hother, hdir] at hotherdir
      simp [hnone]
    | true =>
      have hlist : ((alone now).listFiles (s.1.pathOf key)).outcome s = (.ok ((s.1.tree.childrenNames key).map
          fun name => s.1.pathOf (key ++ [name])), s) := by
        have hdirectory : s.1.tree.HasDirectory (s.1.keyOf (s.1.pathOf key)) := ⟨node, by rw [hread, hnode], hdir⟩
        have hanswers := answers_listFiles hdirectory now
        rwa [hread] at hanswers
      have hbelow : ((s.1.tree.childrenNames key).mapM fun name =>
          (alone now).walk levels (s.1.pathOf (key ++ [name]))).outcome s =
            (.ok ((s.1.tree.childrenNames key).map fun name =>
              (s.1.tree.preorder levels (key ++ [name])).map s.1.pathOf), s) := by
        refine outcome_mapM fun name hname => ih (mem_childrenNames.mp hname) ?_
        rw [List.length_append, List.length_singleton]
        omega
      rw [if_pos rfl, outcome_bind, hlist]
      simp only
      rw [List.mapM_map, outcome_bind]
      simp only [Function.comp_def, hbelow]
      rw [outcome_pure, List.map_cons, List.map_flatMap, List.flatMap_def]

/-- **Listings, parents and names fit together.** On every drive that a run has led to:

* a directory lists, in strictly increasing order, the canonical paths of exactly those entries whose parent is the
  canonical path of the directory, and each of them is a canonical path and consists of the path of the directory, one
  slash and the name;
* a walk from the root along the listings meets the path of every entry exactly once, and comes to its end. -/
theorem listings_fit (hreached : Reached s.1) (hscheme : Scheme.isValid s.1.scheme = true) :
    (∀ {path : Text}, Answers s (.isDirectory path) true →
      ∃ canonical entries, Answers s (.canonicalPath path) canonical ∧ Answers s (.listFiles path) entries ∧
        entries.Pairwise (fun a b => Text.le a b = true ∧ a ≠ b) ∧
        (∀ entry, entry ∈ entries ↔ ∃ other, Answers s (.exists other) true ∧
          Answers s (.parent other) (some canonical) ∧ Answers s (.canonicalPath other) entry) ∧
        ∀ entry ∈ entries, Answers s (.canonicalPath entry) entry ∧
          ∃ name, Answers s (.name entry) name ∧ '/' ∉ name ∧
            entry = Text.dropTrailing '/' canonical ++ '/' :: name) ∧
    ∃ visited : List Text, (∀ now, ∀ levels ≥ s.1.tree.length,
        ((alone now).walk levels (s.1.pathOf [])).outcome s = (.ok visited, s)) ∧
      visited.Nodup ∧ visited.Perm (s.1.tree.map fun entry => s.1.pathOf entry.1) := by
  have hw := hreached.wellFormed
  have hne := Scheme.ne_nil_of_isValid hscheme
  constructor
  · intro path hdir
    have hkey := s.1.keyOf_proper path
    have hpairwise := childrenNames_pairwise hw.distinct (s.1.keyOf path)
    refine ⟨_, _, answers_canonicalPath s path, answers_listFiles (answers_isDirectory_iff.mp hdir),
      pairwise_paths hkey hpairwise, fun entry => mem_paths_iff hw hne hkey, ?_⟩
    intro entry hentry
    obtain ⟨name, hname, rfl⟩ := List.mem_map.mp hentry
    obtain ⟨node, hnode⟩ := has_iff.mp (mem_childrenNames.mp hname)
    have hproper := hw.proper hnode
    have hcanonical := answers_canonicalPath s (s.1.pathOf (s.1.keyOf path ++ [name]))
    have hlast := answers_name s (s.1.pathOf (s.1.keyOf path ++ [name]))
    rw [keyOf_pathOf hne hproper] at hcanonical hlast
    rw [Key.name_append_singleton] at hlast
    exact ⟨hcanonical, name, hlast, (hproper name (by simp)).no_slash, pathOf_append_singleton hkey name⟩
  · have hroot : s.1.tree.has [] = true := has_iff.mpr (hw.root.imp fun _ h => h.1)
    refine ⟨(s.1.tree.preorder s.1.tree.length []).map s.1.pathOf, fun now levels hlevels => ?_, ?_, ?_⟩
    · -- with as many levels as there are entries, nothing is too deep
      rw [outcome_walk hw hne now hroot hlevels]
      obtain ⟨more, rfl⟩ := Nat.exists_eq_add_of_le hlevels
      rw [hw.preorder_add hroot (Nat.le_refl _)]
    · -- keys that are visited are proper, so they are told apart by their paths
      refine (hw.nodup_preorder _ []).map_on fun first hf second hs hsame => ?_
      obtain ⟨node, hnode⟩ := has_iff.mp (Tree.has_of_mem_preorder hroot hf)
      obtain ⟨other, hother⟩ := has_iff.mp (Tree.has_of_mem_preorder hroot hs)
      rw [← keyOf_pathOf hne (hw.proper hnode), hsame, keyOf_pathOf hne (hw.proper hother)]
    · have hperm := (hw.perm_preorder (Nat.le_refl _)).map s.1.pathOf
      rwa [List.map_map] at hperm

/-! ### A small tree -/

/-- The changes that lead to a directory with a file in it, next to a file whose name begins like its own. -/
def nesting : List Action :=
  [.ask 1 (.createDirectory "mem:/a".toList), .ask 2 (.createFile "mem:/a/b".toList),
    .ask 3 (.createFile "mem:/a.b".toList)]

/-- That drive. -/
def nested : Drive × TokenSource := run (.fresh "mem".toList 0, .counting []) nesting

theorem listings_fit_nested :
    (∃ canonical entries, Answers nested (.canonicalPath "mem:a/".toList) canonical ∧
      Answers nested (.listFiles "mem:a/".toList) entries ∧
        entries.Pairwise (fun a b => Text.le a b = true ∧ a ≠ b)) ∧
    ∃ visited : List Text, (∀ now, ∀ levels ≥ 4,
      ((alone now).walk levels "mem:/".toList).outcome nested = (.ok visited, nested)) ∧ visited.length = 4 := by
  have hreached : Reached nested.1 := ⟨"mem".toList, 0, .counting [], nesting, rfl⟩
  have hdirectory : Answers nested (.isDirectory "mem:a/".toList) true :=
    answers_isDirectory_iff.mpr ⟨.newDirectory 1, by decide, rfl⟩
  have hfit := listings_fit hreached (by decide)
  obtain ⟨canonical, entries, hcanonical, hentries, hpairwise, -⟩ := hfit.1 hdirectory
  obtain ⟨visited, hwalk, -, hperm⟩ := hfit.2
  exact ⟨⟨canonical, entries, hcanonical, hentries, hpairwise⟩, visited, hwalk, hperm.length_eq⟩

end Drive

end FileRouter
