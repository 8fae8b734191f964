import FileRouter.Memory.Tree
import FileRouter.Proofs.Rooted
import Mathlib.Logic.Relation
/-!
Well-formed trees, and what can happen to them.

A tree is well formed when its root is a directory, every other entry hangs in a directory, keys consist
of names, and directories hold no bytes. `Tree.Step` lists everything that one change of a drive can do
to its tree, `Tree.Growth` the part of it that takes nothing away. Every step keeps a tree well formed
(`Step.wellFormed`), and growth leaves every file where it is (`Growth.hasFile`).
-/

namespace FileRouter.Tree

open KeyMap

/-- A directory is at a key. -/
def HasDirectory (tree : Tree) (key : Key) : Prop :=
  ∃ node, tree.get? key = some node ∧ node.isDirectory = true

theorem not_hasDirectory_of_missing {tree : Tree} {key : Key} (h : tree.get? key = none) :
    ¬ tree.HasDirectory key := by
  rintro ⟨other, ho, -⟩
  rw [h] at ho
  simp at ho

theorem not_hasDirectory_of_file {tree : Tree} {key : Key} {node : Node} (h : tree.get? key = some node)
    (hfile : ¬ node.isDirectory = true) : ¬ tree.HasDirectory key := by
  rintro ⟨other, ho, hother⟩
  rw [h] at ho
  exact hfile (Option.some.inj ho ▸ hother)

/-- The shape of a tree: a root that is a directory, entries only in directories, keys made of names, no
key twice, and no bytes in a directory. -/
structure WellFormed (tree : Tree) : Prop where
  distinct : Distinct tree
  root : tree.HasDirectory []
  proper : ∀ {key : Key} {node : Node}, tree.get? key = some node → key.Proper
  parents : ∀ {key : Key} {node : Node}, tree.get? key = some node → key ≠ [] →
    tree.HasDirectory key.parent
  blank : ∀ {key : Key} {node : Node}, tree.get? key = some node → node.isDirectory = true →
    node.bytes = []

namespace WellFormed

variable {tree : Tree}

/-- A well-formed tree is rooted in its directories. -/
theorem rooted (h : tree.WellFormed) : Rooted Node.isDirectory tree :=
  ⟨h.distinct, h.root, h.parents⟩

theorem of_rooted (h : Rooted Node.isDirectory tree)
    (hproper : ∀ {key : Key} {node : Node}, tree.get? key = some node → key.Proper)
    (hblank : ∀ {key : Key} {node : Node}, tree.get? key = some node → node.isDirectory = true →
      node.bytes = []) : tree.WellFormed :=
  ⟨h.distinct, h.root, hproper, h.parents, hblank⟩

theorem fresh (now : Int) : (Tree.fresh now).WellFormed := by
  -- the root is the only entry
  have hroot : ∀ {key : Key} {node : Node}, (Tree.fresh now).get? key = some node →
      key = [] ∧ node = Node.newDirectory now := by
    intro key node hg
    have hm := mem_of_get? hg
    simpa [Tree.fresh] using hm
  refine ⟨by simp [Distinct, Tree.fresh],
    ⟨.newDirectory now, by simp [Tree.fresh, get?_cons], rfl⟩, ?_, ?_, ?_⟩
  · intro key node hg
    rw [(hroot hg).1]
    exact Key.proper_nil
  · intro key node hg hne
    exact absurd (hroot hg).1 hne
  · intro key node hg _
    rw [(hroot hg).2]
    rfl

/-- A new entry in a directory. -/
theorem put_new (h : tree.WellFormed) {key : Key} {node : Node} (hk : key.Proper)
    (hg : tree.get? key = none) (hp : tree.HasDirectory key.parent) (hb : node.bytes = []) :
    WellFormed (tree.put key node) := by
  refine of_rooted (h.rooted.put_new hg hp node) ?_ ?_
  · intro other found hf
    rw [get?_put] at hf
    split at hf
    next he => exact he ▸ hk
    next => exact h.proper hf
  · intro other found hf hdir
    rw [get?_put] at hf
    split at hf
    next => rw [← Option.some.inj hf, hb]
    next => exact h.blank hf hdir

/-- An entry in place of another of the same kind. -/
theorem put_same (h : tree.WellFormed) {key : Key} {node new : Node}
    (hg : tree.get? key = some node) (hkind : new.isDirectory = node.isDirectory)
    (hb : new.isDirectory = true → new.bytes = []) : WellFormed (tree.put key new) := by
  refine of_rooted (h.rooted.put_same hg hkind) ?_ ?_
  · intro other found hf
    rw [get?_put] at hf
    split at hf
    next he => exact h.proper (he ▸ hg)
    next => exact h.proper hf
  · intro other found hf hdir
    rw [get?_put] at hf
    split at hf
    next =>
      obtain rfl := Option.some.inj hf
      exact hb hdir
    next => exact h.blank hf hdir

/-- Entries that stay with everything above them. -/
theorem filter (h : tree.WellFormed) (keep : Key → Bool) (hroot : keep [] = true)
    (hup : ∀ {key : Key}, (∃ node, tree.get? key = some node) → key ≠ [] → keep key = true →
      keep key.parent = true) :
    WellFormed (tree.filter fun entry => keep entry.1) := by
  have hold : ∀ {key : Key} {node : Node},
      get? (tree.filter fun entry => keep entry.1) key = some node → tree.get? key = some node := by
    intro key node hf
    rw [get?_filter] at hf
    split at hf
    next => exact hf
    next => simp at hf
  exact of_rooted (h.rooted.filter keep hroot hup) (fun hf => h.proper (hold hf))
    (fun hf => h.blank (hold hf))

/-- A tree without an entry that nothing lies below. -/
theorem erase (h : tree.WellFormed) {key : Key} (hne : key ≠ []) (hb : BareAt tree key) :
    WellFormed (tree.erase key) := by
  have hold : ∀ {other : Key} {node : Node}, get? (tree.erase key) other = some node →
      tree.get? other = some node := by
    intro other node hf
    rw [get?_erase] at hf
    split at hf
    next => simp at hf
    next => exact hf
  exact of_rooted (h.rooted.erase hne hb) (fun hf => h.proper (hold hf)) (fun hf => h.blank (hold hf))

/-- A tree in which a subtree has been carried to a bare place in a directory outside of it. -/
theorem rename (h : tree.WellFormed) {source target : Key} {node : Node}
    (hs : tree.get? source = some node) (hroot : source ≠ []) (hout : ¬ source <+: target)
    (ht : target.Proper) (hp : tree.HasDirectory target.parent) (hb : BareAt tree target) :
    WellFormed (tree.rename source target) := by
  refine of_rooted (h.rooted.rename hs hroot hout hp hb) ?_ ?_
  · intro key found hf
    rcases get?_rename_cases h.distinct hb hf with ⟨rest, rfl, ho⟩ | ⟨-, -, ho⟩
    · exact Key.proper_append.mpr ⟨ht, (Key.proper_append.mp (h.proper ho)).2⟩
    · exact h.proper ho
  · intro key found hf hdir
    rcases get?_rename_cases h.distinct hb hf with ⟨rest, -, ho⟩ | ⟨-, -, ho⟩
    · exact h.blank ho hdir
    · exact h.blank ho hdir

end WellFormed

/-! ### Changes -/

/-- What a change does to a tree that takes nothing away: it makes a blank entry, writes a file, or
protects an entry. -/
inductive Growth : Tree → Tree → Prop
  | made {tree : Tree} {key : Key} {node : Node} : key.Proper → tree.get? key = none →
      tree.HasDirectory key.parent → node.bytes = [] → Growth tree (tree.put key node)
  | written {tree : Tree} {key : Key} {node : Node} (bytes : Bytes) (now : Int) :
      tree.get? key = some node → node.isDirectory = false →
      Growth tree (tree.put key (node.written bytes now))
  | locked {tree : Tree} {key : Key} {node : Node} : tree.get? key = some node →
      Growth tree (tree.put key { node with readOnly := true })

/-- What one change of a drive does to its tree: it lets it grow, removes an entry, or carries a subtree
to a free place. -/
inductive Step : Tree → Tree → Prop
  | grown {tree tree' : Tree} : Growth tree tree' → Step tree tree'
  | removed {tree : Tree} {key : Key} {node : Node} : tree.get? key = some node → key ≠ [] →
      node.readOnly = false → (node.isDirectory = true → tree.isEmptyAt key = true) →
      Step tree (tree.erase key)
  | moved {tree : Tree} {source target : Key} {node : Node} : tree.get? source = some node →
      source ≠ [] → ¬ source <+: target → target.Proper → tree.HasDirectory target.parent →
      (∀ {old : Node}, tree.get? target = some old → old.isDirectory = true →
        tree.isEmptyAt target = true) →
      Step tree (tree.rename source target)

theorem Growth.wellFormed {tree tree' : Tree} (hgrowth : Growth tree tree') (h : tree.WellFormed) :
    tree'.WellFormed := by
  cases hgrowth with
  | made hk hg hp hb => exact h.put_new hk hg hp hb
  | @written key node bytes now hg hfile =>
    refine h.put_same hg rfl (fun hdir => ?_)
    rw [show (node.written bytes now).isDirectory = node.isDirectory from rfl, hfile] at hdir
    simp at hdir
  | @locked key node hg =>
    have hb : node.isDirectory = true → node.bytes = [] := h.blank hg
    exact h.put_same hg rfl hb

/-- Every change keeps a tree well formed. -/
theorem Step.wellFormed {tree tree' : Tree} (hstep : Step tree tree') (h : tree.WellFormed) :
    tree'.WellFormed := by
  cases hstep with
  | grown hgrowth => exact hgrowth.wellFormed h
  | removed hg hne _ hempty =>
    refine h.erase hne (h.rooted.bareAt fun {other} ho hdir => ?_)
    rw [hg] at ho
    exact hempty (Option.some.inj ho ▸ hdir)
  | moved hs hroot hout ht hp hfree => exact h.rename hs hroot hout ht hp (h.rooted.bareAt hfree)

theorem wellFormed_of_steps {tree tree' : Tree} (hsteps : Relation.ReflTransGen Step tree tree')
    (h : tree.WellFormed) : tree'.WellFormed := by
  induction hsteps with
  | refl => exact h
  | tail _ hstep ih => exact hstep.wellFormed ih

/-! ### Files that stay -/

/-- A file is at a key. -/
def HasFile (tree : Tree) (key : Key) : Prop :=
  ∃ node, tree.get? key = some node ∧ node.isDirectory = false

/-- Growth leaves every file where it is. -/
theorem Growth.hasFile {tree tree' : Tree} (hgrowth : Growth tree tree') {key : Key}
    (h : tree.HasFile key) : tree'.HasFile key := by
  obtain ⟨node, hn, hfile⟩ := h
  -- each kind of growth puts one entry, and where it puts it over a file that stays a file
  cases hgrowth with
  | @made place new _ hg _ _ =>
    refine ⟨node, ?_, hfile⟩
    rw [get?_put, if_neg (fun he => by rw [he, hg] at hn; simp at hn), hn]
  | @written place old bytes now hg hold =>
    by_cases he : key = place
    · exact ⟨old.written bytes now, by rw [get?_put, if_pos he], hold⟩
    · exact ⟨node, by rw [get?_put, if_neg he, hn], hfile⟩
  | @locked place old hg =>
    by_cases he : key = place
    · rw [he, hg] at hn
      obtain rfl := Option.some.inj hn
      exact ⟨{ old with readOnly := true }, by rw [get?_put, if_pos he], hfile⟩
    · exact ⟨node, by rw [get?_put, if_neg he, hn], hfile⟩

theorem hasFile_of_growths {tree tree' : Tree} (hgrowths : Relation.ReflTransGen Growth tree tree')
    {key : Key} (h : tree.HasFile key) : tree'.HasFile key := by
  induction hgrowths with
  | refl => exact h
  | tail _ hgrowth ih => exact hgrowth.hasFile ih

end FileRouter.Tree
