import FileRouter.Proofs.Store.Depiction
/-!
Tasks: the operations on whole trees, by the keys that they are about.

What a task comes to is said by the contents alone (`effect`): whether it succeeds and with which result, and what the
contents are afterwards. A registry whose store has a depiction with room enough does just that
(`Depiction.outcome_command`), so any number of tasks, made one after the other, comes to the same on two registries
that show the same contents (`Depiction.alike_history`).
-/

namespace FileRouter

open Call

/-- An operation on trees. -/
inductive Task where
  | deleteRecursive (key : Key) (tryOnly : Bool)
  | createDirectories (key : Key)
  | copy (source target : Key) (chunkSize : Nat)
  | tryDelete (key : Key)
  deriving Repr, DecidableEq

namespace Task

/-- The keys that a task is about. -/
def keys : Task → List Key
  | deleteRecursive key _ | createDirectories key | tryDelete key => [key]
  | copy source target _ => [source, target]

/-- A copy has chunks of some size. -/
def Positive : Task → Prop
  | copy _ _ chunkSize => 0 < chunkSize
  | _ => True

instance : (task : Task) → Decidable task.Positive
  | copy _ _ chunkSize => inferInstanceAs (Decidable (0 < chunkSize))
  | deleteRecursive _ _ | createDirectories _ | tryDelete _ => isTrue trivial

/-- A copy has chunks that room can be made for, unless their size is no count. -/
def Sizeable : Task → Prop
  | copy _ _ chunkSize => (chunkSize : Int) ≤ Count.room ∨ ¬ Fits chunkSize
  | _ => True

instance : (task : Task) → Decidable task.Sizeable
  | copy _ _ chunkSize => inferInstanceAs (Decidable ((chunkSize : Int) ≤ Count.room ∨ ¬ Fits chunkSize))
  | deleteRecursive _ _ | createDirectories _ | tryDelete _ => isTrue trivial

/-- The command that a task is where keys go by paths. -/
def command (spell : Key → Text) : Task → Command
  | deleteRecursive key tryOnly => .deleteRecursive (spell key) tryOnly
  | createDirectories key => .createDirectories (some (spell key))
  | copy source target chunkSize => .copy (spell source) (spell target) (chunkSize : Int)
  | tryDelete key => .tryDelete (spell key)

open Classical in
/-- What a task comes to: its result, if it succeeds, and the contents that it leaves. -/
noncomputable def effect (items : Contents) : Task → Option Result × Contents
  | deleteRecursive key _ => (some .nothing, items.prune key)
  | createDirectories key =>
    if items.Passable key then (some .nothing, items.withPath key) else (none, items)
  | copy source target chunkSize =>
    match items source with
    | some (.file bytes) =>
      if target ≠ source ∧ items.Writable target then
        if Fits chunkSize then (some (.number bytes.length), items.put target (.file bytes))
        else (none, items.put target (.file []))
      else (none, items)
    | _ => (none, items)
  | tryDelete key =>
    (some (.flag (decide (items.Removable key))), if items.Removable key then items.erase key else items)

end Task

namespace Command

/-! A command works with the bounds that its world sets. -/

variable (registry : Nat) (world : World)

theorem outcome_run_deleteRecursive (path : Text) (tryOnly : Bool) :
    ((deleteRecursive path tryOnly).run registry).outcome world =
      ((fun _ => Result.nothing) <$> (World.store registry).deleteRecursive tryOnly world.levels path).outcome world := by
  rw [run, World.deleteRecursive, outcome_map, outcome_map, outcome_bind, outcome_get]

theorem outcome_run_createDirectories (path : Text) :
    ((createDirectories (some path)).run registry).outcome world =
      ((fun _ => Result.nothing) <$>
        (World.store registry).createDirectories (world.climb path) (some path)).outcome world := by
  rw [run, World.createDirectories, outcome_map, outcome_map, outcome_bind, outcome_get, Option.getD_some]

theorem outcome_run_copy (source target : Text) (chunkSize : Int) :
    ((copy source target chunkSize).run registry).outcome world =
      ((fun count : Nat => Result.number count) <$>
        (World.store registry).copy world.volume source target chunkSize).outcome world := by
  rw [run, World.copy, outcome_map, outcome_map, outcome_bind, outcome_get]

/-- What comes of commands that are made one after the other, however each of them ends: the answer to each, with the
world that it leaves. -/
def history (registry : Nat) : World → List Command → List (Except Failure Result × World)
  | _, [] => []
  | world, command :: commands =>
    (command.run registry).outcome world ::
      history registry ((command.run registry).outcome world).2 commands

end Command

namespace Depiction

variable {registry registry' : Nat} {items : Contents} {world world' : World}

/-- The bounds that a world sets are no bounds to what a depiction shows: there are more levels than any tree has,
more steps up than any path, and more chunks than any file has bytes. -/
structure Roomy (shown : Depiction (World.store registry)) : Prop where
  levels : ∀ {items world key}, shown.Shows items world → items.Within key world.levels
  climb : ∀ {items world key}, shown.Shows items world → shown.Legal key → key.length < world.climb (shown.spell key)
  volume : ∀ {items world key bytes}, shown.Shows items world → items key = some (.file bytes) →
    bytes.length < world.volume

/-- What a call comes to when it yields a value, or when it refuses. -/
theorem outcome_of_yields {σ α : Type} {call : Call σ α} {s : σ} {value : α} {R : σ → Prop} (h : Yields call s value R)
    (f : α → Result) : ((f <$> call).outcome s).1.toOption = some (f value) ∧ R ((f <$> call).outcome s).2 := by
  obtain ⟨t, hout, ht⟩ := h
  rw [outcome_map, hout]
  exact ⟨rfl, ht⟩

@[inherit_doc outcome_of_yields]
theorem outcome_of_refuses {σ α : Type} {call : Call σ α} {s : σ} {R : σ → Prop} (h : Refuses call s R)
    (f : α → Result) : ((f <$> call).outcome s).1.toOption = none ∧ R ((f <$> call).outcome s).2 := by
  obtain ⟨failure, t, hout, ht⟩ := h
  rw [outcome_map, hout]
  exact ⟨rfl, ht⟩

/-- **A task comes to its effect** on what is shown. -/
theorem outcome_command (shown : Depiction (World.store registry)) (hroomy : shown.Roomy) {task : Task}
    (hkeys : ∀ key ∈ task.keys, key ≠ [] ∧ shown.Legal key) (hpositive : task.Positive) (hsize : task.Sizeable)
    (hs : shown.Shows items world) :
    (((task.command shown.spell).run registry).outcome world).1.toOption = (task.effect items).1 ∧
      shown.Shows (task.effect items).2 (((task.command shown.spell).run registry).outcome world).2 := by
  cases task with
  | deleteRecursive key tryOnly =>
    obtain ⟨hroot, hlegal⟩ := hkeys key (by simp [Task.keys])
    have hlevels : 0 < world.levels := Nat.succ_pos _
    rw [Task.command, Command.outcome_run_deleteRecursive]
    exact outcome_of_yields (shown.yields_deleteRecursive tryOnly world.levels hs hlegal hroot (hroomy.levels hs) hlevels) _
  | createDirectories key =>
    obtain ⟨hroot, hlegal⟩ := hkeys key (by simp [Task.keys])
    -- the limits of the loops are never reached: `hroomy` leaves a step for every name
    have hclimb := hroomy.climb hs hlegal
    rw [Task.command, Task.effect, Command.outcome_run_createDirectories]
    split_ifs with hpassable
    · exact outcome_of_yields (shown.yields_createDirectories hs hlegal hclimb hpassable) _
    · exact outcome_of_refuses (shown.refuses_createDirectories hs hlegal hclimb hpassable) _
  | copy source target chunkSize =>
    obtain ⟨-, hsource⟩ := hkeys source (by simp [Task.keys])
    obtain ⟨hroot, htarget⟩ := hkeys target (by simp [Task.keys])
    -- A copy is refused for one of three reasons, and where none holds only the chunk size is left.
    have hrefuses : target = source ∨ (∀ bytes, items source ≠ some (.file bytes)) ∨ ¬ items.Writable target →
        ((World.store registry).copy world.volume (shown.spell source) (shown.spell target) chunkSize).Refuses world
          (shown.Shows items) :=
      shown.refuses_copy hs hsource htarget hroot chunkSize
    rw [Task.command, Task.effect, Command.outcome_run_copy]
    split
    next bytes hfile =>
      split_ifs with hgood hfits
      · have hroom := hsize.resolve_right (not_not.mpr hfits)
        exact outcome_of_yields (shown.yields_copy hs hsource htarget hgood.1 hfile hgood.2 (hroomy.volume hs hfile)
          hpositive hroom) _
      · exact outcome_of_refuses (shown.refuses_copy_of_misfit hs hsource htarget hgood.1 hfile hgood.2
          (hroomy.volume hs hfile) hfits) _
      · refine outcome_of_refuses (hrefuses ?_) _
        by_cases hsame : target = source
        · exact Or.inl hsame
        · exact Or.inr (Or.inr fun hwritable => hgood ⟨hsame, hwritable⟩)
    next hnofile => exact outcome_of_refuses (hrefuses (Or.inr (Or.inl hnofile))) _
  | tryDelete key =>
    obtain ⟨hroot, hlegal⟩ := hkeys key (by simp [Task.keys])
    exact outcome_of_yields (shown.yields_tryDelete hs hlegal hroot) _

/-- **Tasks come to the same** on two registries that show the same contents: each of them succeeds on both with the
same result or fails on both, and leaves the same contents. -/
theorem alike_history {shown : Depiction (World.store registry)} {shown' : Depiction (World.store registry')}
    (hroomy : shown.Roomy) (hroomy' : shown'.Roomy) {tasks : List Task}
    (hkeys : ∀ task ∈ tasks, ∀ key ∈ task.keys, key ≠ [] ∧ shown.Legal key ∧ shown'.Legal key)
    (hpositive : ∀ task ∈ tasks, task.Positive) (hsizes : ∀ task ∈ tasks, task.Sizeable) (hs : shown.Shows items world)
    (hs' : shown'.Shows items world') :
    List.Forall₂
      (fun out out' => out.1.toOption = out'.1.toOption ∧
        ∃ items, shown.Shows items out.2 ∧ shown'.Shows items out'.2)
      (Command.history registry world (tasks.map (Task.command shown.spell)))
      (Command.history registry' world' (tasks.map (Task.command shown'.spell))) := by
  induction tasks generalizing items world world' with
  | nil => exact List.Forall₂.nil
  | cons task tasks ih =>
    have hkey := hkeys task List.mem_cons_self
    have hpos := hpositive task List.mem_cons_self
    have hsize := hsizes task List.mem_cons_self
    -- the task has one effect on the contents, and both sides show it
    obtain ⟨hanswer, hafter⟩ :=
      shown.outcome_command hroomy (fun key hm => ⟨(hkey key hm).1, (hkey key hm).2.1⟩) hpos hsize hs
    obtain ⟨hanswer', hafter'⟩ :=
      shown'.outcome_command hroomy' (fun key hm => ⟨(hkey key hm).1, (hkey key hm).2.2⟩) hpos hsize hs'
    exact List.Forall₂.cons ⟨hanswer.trans hanswer'.symm, _, hafter, hafter'⟩
      (ih (fun other hm => hkeys other (List.mem_cons_of_mem _ hm))
        (fun other hm => hpositive other (List.mem_cons_of_mem _ hm))
        (fun other hm => hsizes other (List.mem_cons_of_mem _ hm)) hafter hafter')

end Depiction

end FileRouter
