import FileRouter.Proofs.Call
import FileRouter.Proofs.Store.Command
import FileRouter.Proofs.Store.Stream
import FileRouter.Proofs.World.Reading
/-!
What can be done through a read-only view.

Nothing: whatever commands are given for guarded paths, and whatever is asked of the handles that they bring, no
tree and no file of the disk changes (`unchanged_run`). The operations that are built on requests never leave the
guarded paths, because every path that they are handed is guarded again; so each of them keeps the world
undisturbed (`Guarded.deleteRecursive`, `Guarded.createDirectories`, `Guarded.copy`), and so does a run.
-/

namespace FileRouter

namespace World

open Call

variable {world : World} {registry : Nat} {found : Registry} {path : Text}

/-- A call that leaves undisturbed whatever is undisturbed so far. -/
abbrev Harmless {α : Type} (world : World) (call : Call World α) : Prop := Keeps (Undisturbed world) call

/-- Whatever is asked of a handle that can only read is harmless. -/
theorem OnlyReads.harmless_onHandle {handle : Handle} (h : world.OnlyReads handle)
    (request : StreamRequest) : Harmless world (World.onHandle handle request) :=
  fun _ hnow => hnow.trans ((hnow.onlyReads h).onHandle request)

theorem OnlyReads.harmless_closing {α : Type} {handle : Handle} (h : world.OnlyReads handle)
    {use : Call World α} (huse : Harmless world use) :
    Harmless world ((store registry).closing handle use) := by
  intro now hnow
  rw [Store.closing, outcome_ensuring_snd]
  exact h.harmless_onHandle .close _ (huse now hnow)

section Operations

variable (hl : Layered world registry found)
include hl

/-! ### Requests -/

/-- A request for a guarded path is harmless, and the paths that it answers are guarded. -/
theorem Guarded.gives_perform (h : Guarded world registry path) (request : Request)
    (hpath : request.path = path) :
    Gives (Undisturbed world)
      (fun reply => ∀ other ∈ (Result.ofReply request reply).leadsTo, Guarded world registry other)
      (perform registry request) := by
  intro now hnow
  have hnow' : Guarded now registry request.path := hpath ▸ h.of_outline hnow.outline
  obtain ⟨hquiet, hleads⟩ := hnow'.quiet_perform (hl.of_outline hnow.outline)
  rw [outcome_map] at hquiet hleads
  refine ⟨hnow.trans hquiet.1, fun {reply} hr other ho => ?_⟩
  rw [hr] at hleads
  exact (hleads rfl other ho).of_outline hnow.outline.symm

theorem Guarded.harmless_perform (h : Guarded world registry path) (request : Request)
    (hpath : request.path = path) : Harmless world (perform registry request) :=
  (h.gives_perform hl request hpath).keeps

/-- The handle that a request for a guarded path brings can only read. -/
theorem Guarded.onlyReads_reply (h : Guarded world registry path) {request : Request}
    (hpath : request.path = path) {now after : World} (hnow : Undisturbed world now)
    {reply : request.Reply Handle} (hr : (perform registry request).outcome now = (.ok reply, after))
    {handle : Handle} (hh : (Result.ofReply request reply).handle? = some handle) :
    after.OnlyReads handle := by
  have hnow' : Guarded now registry request.path := hpath ▸ h.of_outline hnow.outline
  have hquiet := (hnow'.quiet_perform (hl.of_outline hnow.outline)).1
  rw [outcome_map, hr] at hquiet
  exact hquiet.2 rfl hh

/-! ### Deleting -/

theorem Guarded.attemptDelete (h : Guarded world registry path) :
    Harmless world ((store registry).attemptDelete path) := by
  rw [Store.attemptDelete]
  exact keeps_bind (keeps_failure? (h.harmless_perform hl (.delete path) rfl)) fun _ => keeps_pure _

theorem Guarded.remove (h : Guarded world registry path) (tryOnly : Bool) :
    Harmless world ((store registry).remove tryOnly path) := by
  rw [Store.remove]
  split_ifs
  · exact keeps_bind (h.attemptDelete hl) fun _ => keeps_pure _
  · exact h.harmless_perform hl (.delete path) rfl

/-- By induction on the levels: what a listing brings is guarded like the directory. -/
theorem Guarded.deleteRecursive (h : Guarded world registry path) (tryOnly : Bool) (levels : Nat) :
    Harmless world ((store registry).deleteRecursive tryOnly levels path) := by
  induction levels generalizing path with
  | zero => exact keeps_throw _
  | succ levels ih =>
    rw [Store.deleteRecursive_succ]
    refine keeps_bind (h.harmless_perform hl (.exists path) rfl) fun there => ?_
    split_ifs
    · refine keeps_bind (h.harmless_perform hl (.isDirectory path) rfl) fun isDirectory => ?_
      split_ifs
      · refine keeps_of_gives (h.gives_perform hl (.listFiles path) rfl) fun entries hguarded => ?_
        -- the entries that a guarded directory lists are guarded
        have hbelow := keeps_forM fun entry he => ih (hguarded entry he)
        exact keeps_bind hbelow fun _ => h.remove hl tryOnly
      · exact h.remove hl tryOnly
    · exact keeps_pure _

/-! ### Making directories -/

/-- The climb to an ancestor that exists passes guarded paths only. -/
theorem Guarded.missing {start : Option Text} (h : ∀ path ∈ start, Guarded world registry path)
    {passed : List Text} (hpassed : ∀ other ∈ passed, Guarded world registry other) (steps : Nat) :
    Gives (Undisturbed world) (fun missing => ∀ other ∈ missing, Guarded world registry other)
      ((store registry).missing steps start passed) := by
  induction steps generalizing start passed with
  | zero => exact gives_throw _
  | succ steps ih =>
    cases start with
    | none => exact gives_pure hpassed
    | some path =>
      have hpath : Guarded world registry path := h path rfl
      rw [Store.missing]
      refine gives_bind (hpath.gives_perform hl (.exists path) rfl) fun there _ => ?_
      split_ifs
      · exact gives_pure hpassed
      · exact gives_throw _
      · -- what the owner calls the parent of a guarded path is guarded too
        refine gives_bind (hpath.gives_perform hl (.parent path) rfl) fun parent hparent => ?_
        refine ih (fun above ha => hparent above (Option.mem_toList.mpr ha)) fun other ho => ?_
        rcases List.mem_cons.mp ho with rfl | ho
        · exact hpath
        · exact hpassed other ho

/-- A directory and its missing ancestors are made through the view, which refuses to. -/
theorem Guarded.createDirectories {start : Option Text} (h : ∀ path ∈ start, Guarded world registry path)
    (steps : Nat) : Harmless world ((store registry).createDirectories steps start) := by
  rw [Store.createDirectories]
  refine keeps_of_gives (Guarded.missing hl h (by simp) steps) fun missing hmissing => ?_
  exact keeps_forM fun path hp => (hmissing path hp).harmless_perform hl (.createDirectory path) rfl

/-! ### Copying -/

/-- Two guarded paths are compared by what is answered for them. -/
theorem Guarded.checkDistinct {target : Text} (h : Guarded world registry path)
    (ht : Guarded world registry target) : Harmless world ((store registry).checkDistinct path target) := by
  rw [Store.checkDistinct]
  refine keeps_get fun now hnow => ?_
  split_ifs
  · refine keeps_bind (h.harmless_perform hl (.canonicalPath path) rfl) (fun canonical => ?_) now hnow
    refine keeps_bind (ht.harmless_perform hl (.canonicalPath target) rfl) fun canonical' => ?_
    split_ifs
    · exact keeps_throw _
    · exact keeps_pure _
  · exact hnow

/-- The handle that would be for writing can only read, if it is opened at all. -/
theorem Guarded.copy {target : Text} (h : Guarded world registry path) (ht : Guarded world registry target)
    (chunks : Nat) (chunkSize : Int) :
    Harmless world ((store registry).copy chunks path target chunkSize) := by
  rw [Store.copy]
  refine keeps_bind (h.checkDistinct hl ht) fun _ start hstart => ?_
  have hopen := h.harmless_perform hl (.openInput path) rfl start hstart
  refine inv_bind hopen fun {source opened} hsource hopened => ?_
  -- from here on everything is compared with the world in which the source is open
  have hread : opened.OnlyReads source := h.onlyReads_reply hl rfl hstart hsource rfl
  have hl' := hl.of_outline hopened.outline
  have ht' := ht.of_outline hopened.outline
  refine hopened.trans (hread.harmless_closing ?_ opened (.refl opened))
  intro now hnow
  have hboth := ht'.harmless_perform hl' (.openOutput target false) rfl now hnow
  refine inv_bind hboth fun {sink both} hsink hboth => ?_
  have hwrite : both.OnlyReads sink := ht'.onlyReads_reply hl' rfl hnow hsink rfl
  have hread' : both.OnlyReads source := hboth.onlyReads hread
  refine hboth.trans (hwrite.harmless_closing ?_ both (.refl both))
  refine keeps_copyStream (hread'.harmless_onHandle (.read (some chunkSize))) (fun chunk => ?_) chunks
  exact keeps_map _ (hwrite.harmless_onHandle (.write chunk))

/-! ### Commands -/

/-- **A command for guarded paths** is harmless. -/
theorem Guarded.harmless_run {command : Command}
    (h : ∀ path ∈ command.paths, Guarded world registry path) : Harmless world (command.run registry) := by
  cases command with
  | ask request =>
    exact keeps_map _ ((h _ request.path_mem_paths).harmless_perform hl request rfl)
  | deleteRecursive path tryOnly =>
    refine keeps_map _ (keeps_get fun now hnow => ?_)
    exact (h path List.mem_cons_self).deleteRecursive hl tryOnly now.levels now hnow
  | createDirectories path =>
    refine keeps_map _ (keeps_get fun now hnow => ?_)
    exact Guarded.createDirectories hl (fun start hs => h start (Option.mem_toList.mpr hs)) _ now hnow
  | copy source target chunkSize =>
    refine keeps_map _ (keeps_get fun now hnow => ?_)
    -- `copy` names two paths, and needs both to be guarded
    have ht := h target (List.mem_cons_of_mem _ List.mem_cons_self)
    exact (h source List.mem_cons_self).copy hl ht now.volume chunkSize now hnow
  | attemptDelete path => exact keeps_map _ ((h path List.mem_cons_self).attemptDelete hl)
  | tryDelete path =>
    refine keeps_map _ (keeps_bind ((h path List.mem_cons_self).attemptDelete hl) fun _ => ?_)
    exact keeps_pure _

/-- Only a request brings a handle, and that can only read. -/
theorem Guarded.onlyReads_run {command : Command} (h : ∀ path ∈ command.paths, Guarded world registry path)
    {now after : World} (hnow : Undisturbed world now) {value : Result} {handle : Handle}
    (hv : (command.run registry).outcome now = (.ok value, after)) (hh : value.handle? = some handle) :
    after.OnlyReads handle := by
  -- the other commands give no handle back at all
  have hother : ∀ {α : Type} {call : Call World α} {f : α → Result}, (∀ answer, (f answer).handle? = none) →
      (f <$> call).outcome now = (.ok value, after) → after.OnlyReads handle := by
    intro α call f hf hout
    rw [outcome_map, Prod.mk.injEq] at hout
    obtain ⟨answer, -, rfl⟩ := exists_of_map_eq_ok hout.1
    rw [hf] at hh
    simp at hh
  cases command with
  | ask request =>
    rw [Command.run, outcome_map, Prod.mk.injEq] at hv
    obtain ⟨reply, hr, rfl⟩ := exists_of_map_eq_ok hv.1
    exact (h _ request.path_mem_paths).onlyReads_reply hl rfl hnow (Prod.ext hr hv.2) hh
  | deleteRecursive | createDirectories | copy | attemptDelete | tryDelete =>
    exact hother (fun _ => rfl) hv

end Operations

/-! ### Runs -/

/-- Something that a user of the store does: give a command, use a handle that an earlier command has brought,
or wait until the clock shows another time. -/
inductive Action where
  | run (command : Command)
  | use (opened : Nat) (request : StreamRequest)
  | wait (clock : Int)

/-- The paths that are given to the store. -/
def Action.paths : Action → List Text
  | run command => command.paths
  | use _ _ | wait _ => []

/-- The world and the handles that commands have brought so far, after an action. -/
def act (registry : Nat) (s : World × List Handle) : Action → World × List Handle
  | .run command =>
    let out := (command.run registry).outcome s.1
    let opened := out.1.toOption.bind Result.handle?
    (out.2, s.2 ++ opened.toList)
  | .use opened request =>
    match s.2[opened]? with
    | none => s
    | some handle => (((onHandle handle request).outcome s.1).2, s.2)
  | .wait clock => ({ s.1 with clock }, s.2)

/-- What a run leaves. -/
def run (registry : Nat) (world : World) (actions : List Action) : World × List Handle :=
  actions.foldl (act registry) (world, [])

/-- A world that is undisturbed so far, with handles that can only read. -/
def Calm (world : World) (s : World × List Handle) : Prop :=
  Undisturbed world s.1 ∧ ∀ handle ∈ s.2, s.1.OnlyReads handle

/-- One action for guarded paths keeps the world calm. -/
theorem Calm.act (hl : Layered world registry found) {s : World × List Handle} (hs : Calm world s)
    {action : Action} (h : ∀ path ∈ action.paths, Guarded world registry path) :
    Calm world (act registry s action) := by
  obtain ⟨now, handles⟩ := s
  obtain ⟨hnow, hhandles⟩ := hs
  cases action with
  | run command =>
    -- The routes depend on the outline only, which is the same as at the start.
    have hsame : Undisturbed now ((command.run registry).outcome now).2 := by
      refine Guarded.harmless_run (hl.of_outline hnow.outline) (fun path hp => ?_) now (.refl now)
      exact (h path hp).of_outline hnow.outline
    refine ⟨hnow.trans hsame, fun handle hm => ?_⟩
    rcases List.mem_append.mp hm with hold | hnew
    · exact hsame.onlyReads (hhandles handle hold)
    · -- a new handle came through a view that is read-only
      obtain ⟨value, hv, hh⟩ := Option.bind_eq_some_iff.mp (Option.mem_toList.mp hnew)
      have hok : ((command.run registry).outcome now).1 = .ok value := by
        revert hv
        cases ((command.run registry).outcome now).1 with
        | error failure => simp [Except.toOption]
        | ok value' => exact fun hv => congrArg Except.ok (Option.some.inj hv)
      exact Guarded.onlyReads_run hl h hnow (Prod.ext hok rfl) hh
  | use opened request =>
    rw [World.act]
    cases ho : handles[opened]? with
    | none => exact ⟨hnow, hhandles⟩
    | some handle =>
      -- a request to a handle that only reads goes to where nothing is written
      have hreads : now.OnlyReads handle := hhandles handle (List.mem_of_getElem? ho)
      have hsame := hreads.onHandle request
      exact ⟨hnow.trans hsame, fun other hm => hsame.onlyReads (hhandles other hm)⟩
  | wait clock =>
    have hsame : Undisturbed now { now with clock } :=
      ⟨rfl, fun {_ drive} hd => ⟨drive, hd, .refl drive⟩, .refl now.disk⟩
    exact ⟨hnow.trans hsame, fun other hm => hsame.onlyReads (hhandles other hm)⟩

theorem Calm.run (hl : Layered world registry found) {actions : List Action}
    (h : ∀ action ∈ actions, ∀ path ∈ action.paths, Guarded world registry path)
    {s : World × List Handle} (hs : Calm world s) : Calm world (actions.foldl (World.act registry) s) := by
  induction actions generalizing s with
  | nil => exact hs
  | cons action actions ih =>
    rw [List.foldl_cons]
    refine ih (fun other ho => h other (List.mem_cons_of_mem _ ho)) ?_
    exact hs.act hl (h action List.mem_cons_self)

/-- **A read-only view changes nothing.** After any run of commands for guarded paths, and of requests to the
handles that they bring, the tree of every memory provider and the file system of the disk are what they
were. -/
theorem unchanged_run (hl : Layered world registry found) {actions : List Action}
    (h : ∀ action ∈ actions, ∀ path ∈ action.paths, Guarded world registry path) :
    (∀ id, (((run registry world actions).1.drive? id).map Drive.tree) =
        (world.drive? id).map Drive.tree) ∧
      (run registry world actions).1.disk.fs = world.disk.fs ∧
      (run registry world actions).1.disk.leftovers = world.disk.leftovers := by
  have hcalm : Calm world (run registry world actions) := Calm.run hl h ⟨.refl world, by simp⟩
  exact ⟨hcalm.1.tree, hcalm.1.disk.fs, hcalm.1.disk.leftovers⟩

/-- Through a plain view on the read-only one, a file can be read, and neither deleted nor overwritten. -/
theorem unchanged_run_viewed :
    let path := "via:ro:mem:/a".toList
    let actions : List Action := [.run (.ask (.openInput path)), .use 0 (.write [120]), .use 0 .close,
      .run (.copy path path 8192), .run (.deleteRecursive path true)]
    Layered viewedWorld 0 viewedRegistry ∧
      (∀ action ∈ actions, ∀ path ∈ action.paths, Guarded viewedWorld 0 path) ∧
      ((run 0 viewedWorld actions).1.drive? 1).map Drive.tree = (viewedWorld.drive? 1).map Drive.tree := by
  intro path actions
  have hbase : viewedWorld.IsBase (viewedWorld.owner 0 "mem:/a".toList) :=
    ⟨_, rfl, Or.inr ⟨_, rfl⟩⟩
  -- `via` leads to `ro`, which leads to the drive
  have hleads : Leads viewedWorld 0 path [("via".toList, false), ("ro".toList, true)]
      (viewedWorld.owner 0 "mem:/a".toList) "mem:/a".toList :=
    .view rfl (.view rfl (.base hbase))
  have hpath : Guarded viewedWorld 0 path := ⟨_, _, _, hleads, "ro".toList, by simp⟩
  -- no action names a path other than this one
  have hguarded : ∀ action ∈ actions, ∀ other ∈ action.paths, Guarded viewedWorld 0 other := by
    intro action ha other ho
    have hother : other = path := by
      simp only [actions, List.mem_cons, List.not_mem_nil, or_false] at ha
      rcases ha with rfl | rfl | rfl | rfl | rfl <;>
        simp_all [Action.paths, Command.paths, Request.paths, Request.path]
    exact hother ▸ hpath
  exact ⟨layered_viewedWorld, hguarded, (unchanged_run layered_viewedWorld hguarded).1 1⟩

end World

end FileRouter
