import FileRouter.Proofs.Disk.Transfer
import FileRouter.Proofs.Store.Depiction
import FileRouter.Proofs.Store.DiskDelete
/-!
A registry shows the contents of a directory on the disk.

Where a registry leaves the paths at and below a directory to the disk, its store shows the contents of that directory,
and the keys go by their absolute paths (`diskDepiction`). A request changes the disk alone.
-/

namespace FileRouter.World

open Call

variable {world : World} {registry : Nat} {base : Key} {items : Contents} {key : Key}

/-- The registry leaves the paths at and below a key to the disk. -/
def Hosts (registry : Nat) (base : Key) (world : World) : Prop :=
  ∃ id, world.IsDisk id ∧ ∀ key : Key, world.owner registry (Key.toText (base ++ key)) = id

/-- Besides, something holds of the disk. -/
def Hosting (registry : Nat) (base : Key) (Holds : Disk → Prop) (world : World) : Prop :=
  world.Hosts registry base ∧ Holds world.disk

namespace Hosts

theorem outcome_perform {request : Request} {call : Call Disk (request.Reply Nat)} (h : world.Hosts registry base)
    (hpath : request.path = Key.toText (base ++ key)) (hm : world.mismatch? registry request = none)
    (hcall : Disk.perform request = Disk.plain call) :
    (perform registry request).outcome world =
      ((call.outcome world.disk).1.map (request.mapHandle .disk), withDisk (call.outcome world.disk).2 world) := by
  obtain ⟨id, hdisk, howner⟩ := h
  have hd : world.IsDisk (world.owner registry request.path) := by rwa [hpath, howner]
  rw [outcome_perform_disk hd hm, hcall]
  rfl

/-- What the disk answers, the registry answers. -/
theorem yields {request : Request} {call : Call Disk (request.Reply Nat)} {value : request.Reply Nat}
    {Holds : Disk → Prop} (h : world.Hosts registry base) (hpath : request.path = Key.toText (base ++ key))
    (hm : world.mismatch? registry request = none) (hcall : Disk.perform request = Disk.plain call)
    (hyields : Yields call world.disk value Holds) :
    Yields (perform registry request) world (request.mapHandle .disk value) (Hosting registry base Holds) := by
  obtain ⟨disk, hout, hholds⟩ := hyields
  refine ⟨withDisk disk world, ?_, h, hholds⟩
  rw [h.outcome_perform hpath hm hcall, hout]
  rfl

/-- What the disk refuses, the registry refuses. -/
theorem refuses {request : Request} {call : Call Disk (request.Reply Nat)} {Holds : Disk → Prop}
    (h : world.Hosts registry base) (hpath : request.path = Key.toText (base ++ key))
    (hm : world.mismatch? registry request = none) (hcall : Disk.perform request = Disk.plain call)
    (hrefuses : Refuses call world.disk Holds) :
    Refuses (perform registry request) world (Hosting registry base Holds) := by
  obtain ⟨failure, disk, hout, hholds⟩ := hrefuses
  refine ⟨failure, withDisk disk world, ?_, h, hholds⟩
  rw [h.outcome_perform hpath hm hcall, hout]
  rfl

/-- What a handle of the disk answers, the registry answers. -/
theorem yields_onHandle {index : Nat} {request : StreamRequest} {value : request.Reply} {Holds : Disk → Prop}
    (h : world.Hosts registry base) (hyields : Yields (Disk.onFile index request) world.disk value Holds) :
    Yields (onHandle (.disk index) request) world value (Hosting registry base Holds) := by
  obtain ⟨disk, hout, hholds⟩ := hyields
  refine ⟨withDisk disk world, ?_, h, hholds⟩
  rw [outcome_onHandle_disk, hout]

/-- What a handle of the disk refuses, the registry refuses. -/
theorem refuses_onHandle {index : Nat} {request : StreamRequest} {Holds : Disk → Prop}
    (h : world.Hosts registry base) (hrefuses : Refuses (Disk.onFile index request) world.disk Holds) :
    Refuses (onHandle (.disk index) request) world (Hosting registry base Holds) := by
  obtain ⟨failure, disk, hout, hholds⟩ := hrefuses
  refine ⟨failure, withDisk disk world, ?_, h, hholds⟩
  rw [outcome_onHandle_disk, hout]

end Hosts

/-- The registry hosts a directory that has given contents. -/
def HostsTree (registry : Nat) (base : Key) (items : Contents) : World → Prop :=
  Hosting registry base fun disk => disk.fs.HasTree base items

/-- The registry hosts a directory that shows contents. -/
def HostsContents (registry : Nat) (base : Key) (items : Contents) : World → Prop :=
  Hosting registry base (Disk.ShowsContents base items)

theorem HostsTree.hostsContents (h : world.HostsTree registry base items) (hsingle : world.disk.fs.Single base) :
    world.HostsContents registry base items :=
  ⟨h.1, h.2, hsingle⟩

theorem HostsContents.hostsTree (h : world.HostsContents registry base items) : world.HostsTree registry base items :=
  ⟨h.1, h.2.toHasTree⟩

/-- Besides, a handle has been opened for reading from a key. -/
def ReadsDisk (registry : Nat) (base : Key) (items : Contents) (source : Key) (reader : Handle) (left : Bytes)
    (world : World) : Prop :=
  ∃ index, reader = .disk index ∧ Hosting registry base (Disk.ReadsContents base items source index left) world

/-- Besides, a second handle has been opened for writing to another key. -/
def CopiesDisk (registry : Nat) (base : Key) (items : Contents) (source target : Key) (reader writer : Handle)
    (left written : Bytes) (world : World) : Prop :=
  ∃ i j, reader = .disk i ∧ writer = .disk j ∧
    Hosting registry base (Disk.CopiesContents base items source target i j left written) world

theorem reads_copiesDisk {source target : Key} {reader writer : Handle} {count : Nat} (hcount : 0 < count)
    (hroom : (count : Int) ≤ Count.room) :
    Reads ((store registry).read reader (some (count : Int)))
      (CopiesDisk registry base items source target reader writer) := by
  rintro left written world ⟨i, j, rfl, rfl, hhosts, h⟩
  have hread : Yields (onHandle (.disk i) (.read (some (count : Int)))) world (left.take (min count left.length)) _ :=
    hhosts.yields_onHandle (Disk.yields_read h hroom)
  obtain ⟨after, hout, hhosting⟩ := hread
  refine ⟨_, after, hout, ⟨i, j, rfl, rfl, hhosting⟩, fun hleft => ?_⟩
  have hpos := List.length_pos_iff.mpr hleft
  omega

theorem writes_copiesDisk {source target : Key} {reader writer : Handle} :
    Writes (fun data => discard ((store registry).write writer data))
      (CopiesDisk registry base items source target reader writer) := by
  rintro left written chunk world hchunk ⟨i, j, rfl, rfl, hhosts, h⟩
  have hwrite : Yields (onHandle (.disk j) (.write chunk)) world chunk.length _ :=
    hhosts.yields_onHandle (Disk.yields_write h hchunk)
  obtain ⟨after, hout, hhosting⟩ := hwrite
  refine ⟨after, ?_, i, j, rfl, rfl, hhosting⟩
  rw [outcome_discard]
  exact congrArg (fun out => (out.1.map fun _ => (), out.2)) hout

/-- **A registry that leaves a directory to the disk shows its contents.** -/
def diskDepiction (registry : Nat) (base : Key) : Depiction (store registry) where
  spell key := Key.toText (base ++ key)
  Legal key := Disk.FileSystem.Nameable (base ++ key)
  Shows := HostsContents registry base
  Reading := ReadsDisk registry base
  Copying := CopiesDisk registry base
  wellFormed h := h.2.contents_wellFormed
  legal := by
    rintro items world key item ⟨-, h⟩ hitem
    obtain ⟨entry, hentry⟩ := h.eq_some_iff.mp ⟨item, hitem⟩
    exact h.nameable hentry
  legal_parent := by
    intro key hkey
    exact hkey.of_prefix ((List.prefix_append_right_inj base).mpr (List.dropLast_prefix key))
  spell_injective := by
    intro key other hkey hother hspell
    have hkeys : base ++ key = base ++ other := by
      rw [← Key.ofText_toText hkey.proper, ← Key.ofText_toText hother.proper, hspell]
    exact List.append_cancel_left hkeys
  owner := by
    rintro items world key other ⟨⟨id, -, howner⟩, -⟩
    exact (howner key).trans (howner other).symm
  exists? := fun ⟨hhosts, h⟩ hkey => hhosts.yields rfl rfl rfl (Disk.yields_exists? h hkey)
  isDirectory := fun ⟨hhosts, h⟩ hkey => hhosts.yields rfl rfl rfl (Disk.yields_isDirectory h hkey)
  listFiles := by
    rintro items world key ⟨hhosts, h⟩ hkey hdir
    obtain ⟨names, hnames, hyields⟩ := Disk.yields_listFiles h hkey hdir
    exact ⟨names, hnames, hhosts.yields rfl rfl rfl hyields⟩
  parent? := by
    rintro items world key ⟨hhosts, h⟩ hkey hroot
    have hseen := Disk.yields_seen h hkey fun fs _ => Disk.parent? fs (Key.toText (base ++ key))
    rw [Disk.parent?_toText hkey hroot] at hseen
    exact hhosts.yields rfl rfl rfl hseen
  canonicalPath := fun ⟨hhosts, h⟩ hkey => hhosts.yields rfl rfl rfl (Disk.yields_canonicalPath h hkey)
  createDirectory := fun ⟨hhosts, h⟩ hkey hnone hparent =>
    hhosts.yields rfl rfl rfl (Disk.yields_createDirectory h hkey hnone hparent)
  createDirectory_refused := fun ⟨hhosts, h⟩ hkey hnone hparent =>
    hhosts.refuses rfl rfl rfl (Disk.refuses_createDirectory h hkey hnone hparent)
  delete := fun ⟨hhosts, h⟩ hkey hroot hremovable =>
    hhosts.yields rfl rfl rfl (Disk.yields_delete h hkey hroot hremovable)
  delete_refused := fun ⟨hhosts, h⟩ hkey hroot hremovable =>
    hhosts.refuses rfl rfl rfl (Disk.refuses_delete h hkey hroot hremovable)
  openInput := by
    rintro items world key bytes ⟨hhosts, h⟩ hkey hfile
    have hopen : Yields (perform registry (.openInput (Key.toText (base ++ key)))) world
        (.disk world.disk.files.length) _ :=
      hhosts.yields rfl rfl rfl (Disk.yields_openInput h hkey hfile)
    obtain ⟨after, hout, hreads⟩ := hopen
    exact ⟨.disk world.disk.files.length, after, hout, _, rfl, hreads⟩
  openInput_refused := fun ⟨hhosts, h⟩ hkey hnofile =>
    hhosts.refuses rfl rfl rfl (Disk.refuses_openInput h hkey hnofile)
  openOutput := by
    rintro items world source target reader left ⟨index, rfl, hhosts, h⟩ hkey hne hwritable
    have hopen : Yields (perform registry (.openOutput (Key.toText (base ++ target)) false)) world
        (.disk world.disk.files.length) _ :=
      hhosts.yields rfl rfl rfl (Disk.yields_openOutput h hkey hne hwritable)
    obtain ⟨after, hout, hcopies⟩ := hopen
    exact ⟨.disk world.disk.files.length, after, hout, _, _, rfl, rfl, hcopies⟩
  openOutput_refused := by
    rintro items world source target reader left ⟨index, rfl, hhosts, h⟩ hkey hroot hwritable
    have hopen : Refuses (perform registry (.openOutput (Key.toText (base ++ target)) false)) world _ :=
      hhosts.refuses rfl rfl rfl (Disk.refuses_openOutput h hkey hroot hwritable)
    obtain ⟨failure, after, hout, hreads⟩ := hopen
    exact ⟨failure, after, hout, index, rfl, hreads⟩
  reads := reads_copiesDisk
  read_refused := by
    rintro items source target reader writer left written world count hmisfit ⟨i, j, rfl, rfl, hhosts, h⟩
    have hread : Refuses (onHandle (.disk i) (.read (some (count : Int)))) world _ :=
      hhosts.refuses_onHandle (Disk.refuses_read h hmisfit)
    obtain ⟨failure, after, hout, hcopies⟩ := hread
    exact ⟨failure, after, hout, i, j, rfl, rfl, hcopies⟩
  writes := writes_copiesDisk
  close_writer := by
    rintro items world source target reader writer left written ⟨i, j, rfl, rfl, hhosts, h⟩
    have hclose : Yields (onHandle (.disk j) .close) world () _ := hhosts.yields_onHandle (Disk.yields_close_writer h)
    obtain ⟨after, hout, hreads⟩ := hclose
    exact ⟨after, hout, i, rfl, hreads⟩
  close_reader := by
    rintro items world source reader left ⟨index, rfl, hhosts, h⟩
    have hclose : Yields (onHandle (.disk index) .close) world () _ := hhosts.yields_onHandle (Disk.yields_close_reader h)
    exact hclose

end FileRouter.World
