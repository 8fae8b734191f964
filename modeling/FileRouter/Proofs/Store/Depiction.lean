import FileRouter.Proofs.Call
import FileRouter.Proofs.Contents
import FileRouter.Proofs.Store.Command
import FileRouter.Proofs.Store.Stream
import FileRouter.Store.Copy
import FileRouter.Store.Directories
/-!
Operations on whole trees, wherever the tree is kept.

A depiction says how the states of a store show the contents of a tree, by what paths its keys go, and that every
single request answers and changes the contents as it should. From that alone follows what the operations do that are
built on requests: deleting recursively takes away everything at and below a key, in either mode
(`yields_deleteRecursive`), making directories puts in what is missing on the way and fails if a file is in it
(`yields_createDirectories`, `refuses_createDirectories`), a copy carries all bytes over or changes nothing
(`yields_copy`, `refuses_copy`), unless its chunks have a size that is no count, when it leaves the target empty
(`refuses_copy_of_misfit`), and an attempt to delete tells whether the entry could be removed (`yields_tryDelete`). So
two stores that show the same contents do the same.
-/

namespace FileRouter

open Call

variable {σ η : Type}

/-- How states show contents. `Reading` are the states in which a handle has been opened for reading from a key and has
some bytes left; `Copying` those in which a second handle has been opened for writing, at a key that is not the first,
and has been given some bytes. -/
structure Depiction (store : Store σ η) where
  /-- The paths that keys go by. -/
  spell : Key → Text
  /-- The keys that can be named. -/
  Legal : Key → Prop
  Shows : Contents → σ → Prop
  Reading : Contents → Key → η → Bytes → σ → Prop
  Copying : Contents → Key → Key → η → η → Bytes → Bytes → σ → Prop
  wellFormed : ∀ {items s}, Shows items s → items.WellFormed
  legal : ∀ {items s key item}, Shows items s → items key = some item → Legal key
  legal_parent : ∀ {key}, Legal key → Legal key.parent
  spell_injective : ∀ {key other}, Legal key → Legal other → spell key = spell other → key = other
  -- requests
  owner : ∀ {items s key other}, Shows items s → store.owner s (spell key) = store.owner s (spell other)
  exists? : ∀ {items s key}, Shows items s → Legal key →
    (store.exists? (spell key)).Yields s (items key).isSome (Shows items)
  isDirectory : ∀ {items s key}, Shows items s → Legal key →
    (store.isDirectory (spell key)).Yields s (decide (items key = some .directory)) (Shows items)
  listFiles : ∀ {items s key}, Shows items s → Legal key → items key = some .directory →
    ∃ names : List Text, (∀ {name}, name ∈ names ↔ items (key ++ [name]) ≠ none) ∧
      (store.listFiles (spell key)).Yields s (names.map fun name => spell (key ++ [name])) (Shows items)
  parent? : ∀ {items s key}, Shows items s → Legal key → key ≠ [] →
    (store.parent? (spell key)).Yields s (some (spell key.parent)) (Shows items)
  canonicalPath : ∀ {items s key}, Shows items s → Legal key →
    (store.canonicalPath (spell key)).Yields s (spell key) (Shows items)
  createDirectory : ∀ {items s key}, Shows items s → Legal key → items key = none →
    items key.parent = some .directory →
    (store.createDirectory (spell key)).Yields s () (Shows (items.put key .directory))
  createDirectory_refused : ∀ {items s key}, Shows items s → Legal key → items key = none →
    items key.parent ≠ some .directory → (store.createDirectory (spell key)).Refuses s (Shows items)
  delete : ∀ {items s key}, Shows items s → Legal key → key ≠ [] → items.Removable key →
    (store.delete (spell key)).Yields s () (Shows (items.erase key))
  delete_refused : ∀ {items s key}, Shows items s → Legal key → key ≠ [] → ¬ items.Removable key →
    (store.delete (spell key)).Refuses s (Shows items)
  -- copies
  openInput : ∀ {items s key bytes}, Shows items s → Legal key → items key = some (.file bytes) →
    ∃ reader, (store.openInput (spell key)).Yields s reader (Reading items key reader bytes)
  openInput_refused : ∀ {items s key}, Shows items s → Legal key → (∀ bytes, items key ≠ some (.file bytes)) →
    (store.openInput (spell key)).Refuses s (Shows items)
  openOutput : ∀ {items s source target reader left}, Reading items source reader left s → Legal target →
    target ≠ source → items.Writable target →
    ∃ writer, (store.openOutput (spell target) false).Yields s writer
      (Copying items source target reader writer left [])
  openOutput_refused : ∀ {items s source target reader left}, Reading items source reader left s → Legal target →
    target ≠ [] → ¬ items.Writable target →
    (store.openOutput (spell target) false).Refuses s (Reading items source reader left)
  reads : ∀ {items source target reader writer} {count : Nat}, 0 < count → (count : Int) ≤ Count.room →
    Reads (store.read reader (some (count : Int))) (Copying items source target reader writer)
  read_refused : ∀ {items source target reader writer left written s} {count : Nat}, ¬ Fits count →
    Copying items source target reader writer left written s →
    (store.read reader (some (count : Int))).Refuses s (Copying items source target reader writer left written)
  writes : ∀ {items source target reader writer},
    Writes (fun data => discard (store.write writer data)) (Copying items source target reader writer)
  close_writer : ∀ {items s source target reader writer left written},
    Copying items source target reader writer left written s →
    (store.close writer).Yields s () (Reading (items.put target (.file written)) source reader left)
  close_reader : ∀ {items s source reader left}, Reading items source reader left s →
    (store.close reader).Yields s () (Shows items)

namespace Depiction

variable {store : Store σ η} (shown : Depiction store) {items : Contents} {s : σ} {key : Key}

/-! ### Deleting -/

/-- An entry that can be removed goes, in either mode. -/
theorem yields_remove (tryOnly : Bool) (hs : shown.Shows items s) (hlegal : shown.Legal key) (hroot : key ≠ [])
    (h : items.Removable key) :
    (store.remove tryOnly (shown.spell key)).Yields s () (shown.Shows (items.erase key)) := by
  obtain ⟨t, hdelete, ht⟩ := shown.delete hs hlegal hroot h
  cases tryOnly with
  | false => exact ⟨t, hdelete, ht⟩
  | true =>
    refine ⟨t, ?_, ht⟩
    simp only [Store.remove, if_true, Store.attemptDelete]
    rw [outcome_bind, outcome_bind, outcome_failure?, hdelete]
    rfl

/-- What a recursion with some levels left does to everything that is not too deep. -/
def Deletes (tryOnly : Bool) (levels : Nat) : Prop :=
  ∀ {items : Contents} {s : σ} {key : Key}, shown.Shows items s → shown.Legal key → key ≠ [] →
    items.Within key levels → 0 < levels →
    (store.deleteRecursive tryOnly levels (shown.spell key)).Yields s () (shown.Shows (items.prune key))

/-- The entries of a directory are deleted one after the other. -/
theorem Deletes.children {tryOnly : Bool} {levels : Nat} (h : shown.Deletes tryOnly levels) (hlevels : 0 < levels)
    (names : List Text) (hs : shown.Shows items s) (hlegal : ∀ name ∈ names, shown.Legal (key ++ [name]))
    (hwithin : ∀ name ∈ names, items.Within (key ++ [name]) levels) :
    ((names.map fun name => shown.spell (key ++ [name])).forM (store.deleteRecursive tryOnly levels)).Yields s ()
      (shown.Shows (items.pruneEach key names)) := by
  induction names generalizing items s with
  | nil => exact yields_pure hs
  | cons first names ih =>
    have hfirst := h hs (hlegal first List.mem_cons_self) (by simp) (hwithin first List.mem_cons_self) hlevels
    refine hfirst.bind fun t ht => ?_
    exact ih ht (fun name hm => hlegal name (List.mem_cons_of_mem _ hm))
      fun name hm => Contents.Within.prune (hwithin name (List.mem_cons_of_mem _ hm)) (key ++ [first])

/-- **Deleting recursively** takes away everything at and below a key, in either mode. -/
theorem yields_deleteRecursive (tryOnly : Bool) (levels : Nat) : shown.Deletes tryOnly levels := by
  induction levels with
  | zero => exact fun _ _ _ _ hlevels => absurd hlevels (Nat.lt_irrefl 0)
  | succ levels ih =>
    intro items s key hs hlegal hroot hwithin _
    have hw := shown.wellFormed hs
    rw [Store.deleteRecursive_succ]
    refine (shown.exists? hs hlegal).bind fun t ht => ?_
    cases hitem : items key with
    | none =>
      rw [hw.prune_eq_self hitem]
      exact yields_pure ht
    | some item =>
      simp only [Option.isSome_some, if_true]
      refine (shown.isDirectory ht hlegal).bind fun u hu => ?_
      by_cases hdir : items key = some .directory
      · simp only [hdir, decide_true, if_true]
        obtain ⟨names, hnames, hlist⟩ := shown.listFiles hu hlegal hdir
        refine hlist.bind fun v hv => ?_
        -- an entry in the directory uses up a level, so there is one left for it
        have hchildren : (((names.map fun name => shown.spell (key ++ [name])).forM
            (store.deleteRecursive tryOnly levels)).Yields v () (shown.Shows (items.pruneEach key names))) := by
          cases names with
          | nil => exact yields_pure hv
          | cons first names =>
            have hlegals : ∀ name ∈ first :: names, shown.Legal (key ++ [name]) := fun name hm =>
              (Option.ne_none_iff_exists'.mp (hnames.mp hm)).elim fun _ hchild => shown.legal hv hchild
            have hlevels : 0 < levels := by
              obtain ⟨child, hchild⟩ := Option.ne_none_iff_exists'.mp (hnames.mp (List.mem_cons_self (a := first)))
              rw [← List.append_nil (key ++ [first])] at hchild
              exact hwithin.child first hchild
            exact ih.children shown hlevels _ hv hlegals fun name _ => hwithin.child name
        refine hchildren.bind fun w hgone => ?_
        rw [← hw.erase_pruneEach fun {name} hchild => hnames.mpr hchild]
        refine shown.yields_remove tryOnly hgone hlegal hroot ⟨.directory, ?_, fun _ name => ?_⟩
        · rw [Contents.pruneEach_self, hdir]
        · rw [Contents.pruneEach_apply]
          split_ifs with hpruned
          · rfl
          · by_contra hchild
            exact hpruned ⟨name, hnames.mpr hchild, List.prefix_refl _⟩
      · simp only [hdir, decide_false, Bool.false_eq_true, if_false]
        rw [hw.prune_eq_erase hdir]
        exact shown.yields_remove tryOnly hu hlegal hroot ⟨item, hitem, fun hd => absurd (hd ▸ hitem) hdir⟩

open Classical in
/-- **An attempt to delete** removes what can be removed, and tells whether it could. -/
theorem yields_tryDelete (hs : shown.Shows items s) (hlegal : shown.Legal key) (hroot : key ≠ []) :
    (store.tryDelete (shown.spell key)).Yields s (decide (items.Removable key))
      (shown.Shows (if items.Removable key then items.erase key else items)) := by
  by_cases h : items.Removable key
  · obtain ⟨t, hdelete, ht⟩ := shown.delete hs hlegal hroot h
    rw [if_pos h, decide_eq_true h]
    refine ⟨t, ?_, ht⟩
    rw [Store.tryDelete, Store.attemptDelete, outcome_bind, outcome_bind, outcome_failure?, hdelete]
    rfl
  · obtain ⟨failure, t, hdelete, ht⟩ := shown.delete_refused hs hlegal hroot h
    rw [if_neg h, decide_eq_false h]
    refine ⟨t, ?_, ht⟩
    rw [Store.tryDelete, Store.attemptDelete, outcome_bind, outcome_bind, outcome_failure?, hdelete]
    rfl

/-! ### Making directories -/

/-- Climbing from a key passes what is missing on the way. -/
theorem yields_missing (hs : shown.Shows items s) (hlegal : shown.Legal key) {steps : Nat} (hsteps : key.length < steps)
    {passed : List Text}
    (hpassed : ∀ path ∈ passed, ∃ longer, path = shown.spell longer ∧ shown.Legal longer ∧ key.length < longer.length) :
    (store.missing steps (some (shown.spell key)) passed).Yields s
      ((items.gap key).map shown.spell ++ passed) (shown.Shows items) := by
  have hw := shown.wellFormed hs
  induction key using List.reverseRecOn generalizing s steps passed with
  | nil =>
    obtain ⟨steps, rfl⟩ := Nat.exists_eq_succ_of_ne_zero (Nat.ne_of_gt hsteps)
    have hroot : items [] ≠ none := by simp [hw.root]
    rw [hw.gap_eq_nil hroot, Store.missing]
    refine (shown.exists? hs hlegal).bind fun t ht => ?_
    rw [Option.isSome_iff_ne_none.mpr hroot]
    exact yields_pure ht
  | append_singleton parent name ih =>
    obtain ⟨steps, rfl⟩ := Nat.exists_eq_succ_of_ne_zero (Nat.ne_of_gt (Nat.zero_lt_of_lt hsteps))
    rw [List.length_append, List.length_singleton] at hsteps hpassed
    rw [Store.missing]
    refine (shown.exists? hs hlegal).bind fun t ht => ?_
    cases hitem : items (parent ++ [name]) with
    | some item =>
      rw [hw.gap_eq_nil (by simp [hitem])]
      exact yields_pure ht
    | none =>
      -- a path that has been passed belongs to a longer key
      have hnew : shown.spell (parent ++ [name]) ∉ passed := by
        intro hm
        obtain ⟨longer, hspell, hlonger, hlen⟩ := hpassed _ hm
        obtain rfl := shown.spell_injective hlegal hlonger hspell
        simp at hlen
      simp only [Option.isSome_none, Bool.false_eq_true, if_false, hnew]
      have hparent := shown.parent? ht hlegal (by simp)
      have hlegal' := shown.legal_parent hlegal
      rw [Key.parent_append_singleton] at hparent hlegal'
      refine hparent.bind fun u hu => ?_
      rw [Contents.gap_of_none hitem, List.map_append, List.map_singleton, List.append_assoc]
      refine ih hu hlegal' (by omega) fun path hm => ?_
      rcases List.mem_cons.mp hm with rfl | hm
      · exact ⟨parent ++ [name], rfl, hlegal, by simp⟩
      · obtain ⟨longer, hspell, hlonger, hlen⟩ := hpassed path hm
        exact ⟨longer, hspell, hlonger, by omega⟩

/-- Where no file is in the way, all that is missing is made. -/
theorem yields_gap (hs : shown.Shows items s) (hlegal : shown.Legal key)
    (hfree : ∀ {other : Key} {bytes : Bytes}, other <+: key → items other ≠ some (.file bytes)) :
    (((items.gap key).map shown.spell).forM store.createDirectory).Yields s () (shown.Shows (items.withPath key)) := by
  have hw := shown.wellFormed hs
  induction key using List.reverseRecOn with
  | nil =>
    have hroot : items [] ≠ none := by simp [hw.root]
    rw [hw.gap_eq_nil hroot, hw.withPath_eq_self hroot]
    exact yields_pure hs
  | append_singleton parent name ih =>
    cases hitem : items (parent ++ [name]) with
    | some item =>
      rw [hw.gap_eq_nil (by simp [hitem]), hw.withPath_eq_self (by simp [hitem])]
      exact yields_pure hs
    | none =>
      have hlegal' := shown.legal_parent hlegal
      rw [Key.parent_append_singleton] at hlegal'
      have hway := ih hlegal' fun hle => hfree (hle.trans (List.prefix_append parent [name]))
      rw [Contents.gap_of_none hitem, List.map_append, forM_append]
      refine hway.bind fun t ht => ?_
      -- the directories above have been made, so there is one to make the last in
      have hparent : (items.withPath parent) parent = some .directory := by
        rw [Contents.withPath]
        cases hp : items parent with
        | none => simp
        | some item =>
          cases item with
          | directory => simp
          | file bytes => exact absurd hp (hfree (List.prefix_append parent [name]))
      have hmissing : (items.withPath parent) (parent ++ [name]) = none := by
        rw [Contents.withPath, if_neg, hitem]
        rintro ⟨hle, -⟩
        have hlen := hle.length_le
        rw [List.length_append, List.length_singleton] at hlen
        omega
      have hmade := shown.createDirectory ht hlegal hmissing (by rwa [Key.parent_append_singleton])
      rw [Contents.put_withPath hitem] at hmade
      exact hmade.bind fun u hu => yields_pure hu

/-- Where a file is in the way, the first directory that is missing cannot be made. -/
theorem refuses_gap (hs : shown.Shows items s) (hlegal : shown.Legal key) (hmissing : items key = none) {other : Key}
    {bytes : Bytes} (hle : other <+: key) (hfile : items other = some (.file bytes)) :
    (((items.gap key).map shown.spell).forM store.createDirectory).Refuses s (shown.Shows items) := by
  have hw := shown.wellFormed hs
  induction key using List.reverseRecOn with
  | nil => simp [hw.root] at hmissing
  | append_singleton parent name ih =>
    have hlegal' := shown.legal_parent hlegal
    rw [Key.parent_append_singleton] at hlegal'
    have hparent : other <+: parent := by
      rcases List.prefix_concat_iff.mp hle with rfl | hle
      · simp [hfile] at hmissing
      · exact hle
    rw [Contents.gap_of_none hmissing, List.map_append, forM_append]
    cases hitem : items parent with
    | none => exact (ih hlegal' hitem hparent).bind
    | some item =>
      -- nothing is below the file, so it is the entry that the first missing directory would be in
      have hnodir : items parent ≠ some .directory := by
        intro hdir
        obtain ⟨rest, rfl⟩ := hparent
        by_cases hrest : rest = []
        · rw [hrest, List.append_nil, hfile] at hdir
          simp at hdir
        · rw [hw.above hdir hrest] at hfile
          simp at hfile
      rw [hw.gap_eq_nil (by simp [hitem])]
      refine (yields_pure hs).bind_refuses fun t ht => ?_
      exact (shown.createDirectory_refused ht hlegal hmissing (by rwa [Key.parent_append_singleton])).bind

/-- **Making directories** puts in all that is missing on the way to a key, unless a file is in it. -/
theorem yields_createDirectories (hs : shown.Shows items s) (hlegal : shown.Legal key) {steps : Nat}
    (hsteps : key.length < steps) (h : items.Passable key) :
    (store.createDirectories steps (some (shown.spell key))).Yields s () (shown.Shows (items.withPath key)) := by
  have hw := shown.wellFormed hs
  have hmissing : (store.missing steps (some (shown.spell key)) []).Yields s ((items.gap key).map shown.spell)
      (shown.Shows items) := by
    rw [← List.append_nil ((items.gap key).map shown.spell)]
    exact shown.yields_missing hs hlegal hsteps (by simp)
  refine hmissing.bind fun t ht => ?_
  rcases h with hitem | hfree
  · rw [hw.gap_eq_nil hitem, hw.withPath_eq_self hitem]
    exact yields_pure ht
  · exact shown.yields_gap ht hlegal hfree

theorem refuses_createDirectories (hs : shown.Shows items s) (hlegal : shown.Legal key) {steps : Nat}
    (hsteps : key.length < steps) (h : ¬ items.Passable key) :
    (store.createDirectories steps (some (shown.spell key))).Refuses s (shown.Shows items) := by
  have hmissing : (store.missing steps (some (shown.spell key)) []).Yields s ((items.gap key).map shown.spell)
      (shown.Shows items) := by
    rw [← List.append_nil ((items.gap key).map shown.spell)]
    exact shown.yields_missing hs hlegal hsteps (by simp)
  refine hmissing.bind_refuses fun t ht => ?_
  simp only [Contents.Passable, not_or, not_forall, not_not] at h
  obtain ⟨hnone, other, bytes, hle, hfile⟩ := h
  exact shown.refuses_gap ht hlegal hnone hle hfile

/-! ### Copying -/

variable {source target : Key} {bytes : Bytes} {count chunks : Nat}

/-- The check at the start of a copy tells keys apart. -/
theorem yields_checkDistinct (hs : shown.Shows items s) (hsource : shown.Legal source) (htarget : shown.Legal target)
    (hne : target ≠ source) :
    (store.checkDistinct (shown.spell source) (shown.spell target)).Yields s () (shown.Shows items) := by
  have hspell : shown.spell source ≠ shown.spell target := fun h =>
    hne (shown.spell_injective htarget hsource h.symm)
  have hget : (get : Call σ σ).Yields s s (shown.Shows items) := ⟨s, rfl, hs⟩
  refine hget.bind fun t ht => ?_
  have howner : store.owner s (shown.spell target) = store.owner s (shown.spell source) := shown.owner hs
  simp only [howner, if_true]
  refine (shown.canonicalPath ht hsource).bind fun u hu => ?_
  refine (shown.canonicalPath hu htarget).bind fun v hv => ?_
  rw [if_neg hspell]
  exact yields_pure hv

theorem refuses_checkDistinct (hs : shown.Shows items s) (hlegal : shown.Legal key) :
    (store.checkDistinct (shown.spell key) (shown.spell key)).Refuses s (shown.Shows items) := by
  have hget : (get : Call σ σ).Yields s s (shown.Shows items) := ⟨s, rfl, hs⟩
  refine hget.bind_refuses fun t ht => ?_
  simp only [if_true]
  refine (shown.canonicalPath ht hlegal).bind_refuses fun u hu => ?_
  refine (shown.canonicalPath hu hlegal).bind_refuses fun v hv => ?_
  rw [if_pos rfl]
  exact refuses_throw _ hv

/-- **A copy** carries all bytes over to a place that can be written, and answers their number. -/
theorem yields_copy (hs : shown.Shows items s) (hsource : shown.Legal source) (htarget : shown.Legal target)
    (hne : target ≠ source) (hfile : items source = some (.file bytes)) (hwritable : items.Writable target)
    (hchunks : bytes.length < chunks) (hcount : 0 < count) (hroom : (count : Int) ≤ Count.room) :
    (store.copy chunks (shown.spell source) (shown.spell target) (count : Int)).Yields s bytes.length
      (shown.Shows (items.put target (.file bytes))) := by
  refine (shown.yields_checkDistinct hs hsource htarget hne).bind fun t ht => ?_
  obtain ⟨reader, hopen⟩ := shown.openInput ht hsource hfile
  refine hopen.bind fun u hu => ?_
  obtain ⟨writer, hopen'⟩ := shown.openOutput hu htarget hne hwritable
  have htransfer : (do
      let sink ← store.openOutput (shown.spell target) false
      store.closing sink (copyStream (store.read reader (some (count : Int)))
        (fun data => discard (store.write sink data)) chunks)).Yields u bytes.length
      (shown.Reading (items.put target (.file bytes)) source reader []) := by
    refine hopen'.bind fun v hv => ?_
    -- the loop carries everything over, and the writer is closed before the reader
    have hcopied : (copyStream (store.read reader (some (count : Int)))
        (fun data => discard (store.write writer data)) chunks).Yields v bytes.length
        (shown.Copying items source target reader writer [] bytes) :=
      @outcome_copyStream _ _ _ (shown.Copying items source target reader writer) (shown.reads hcount hroom) shown.writes
        chunks bytes [] v hv hchunks
    exact hcopied.ensuring fun w hw => shown.close_writer hw
  exact htransfer.ensuring fun v hv => shown.close_reader hv

/-- A copy whose chunks have a size that is no count has emptied its target when it fails. -/
theorem refuses_copy_of_misfit (hs : shown.Shows items s) (hsource : shown.Legal source) (htarget : shown.Legal target)
    (hne : target ≠ source) (hfile : items source = some (.file bytes)) (hwritable : items.Writable target)
    (hchunks : bytes.length < chunks) (hmisfit : ¬ Fits count) :
    (store.copy chunks (shown.spell source) (shown.spell target) (count : Int)).Refuses s
      (shown.Shows (items.put target (.file []))) := by
  refine (shown.yields_checkDistinct hs hsource htarget hne).bind_refuses fun t ht => ?_
  obtain ⟨reader, hopen⟩ := shown.openInput ht hsource hfile
  refine hopen.bind_refuses fun u hu => ?_
  obtain ⟨writer, hopen'⟩ := shown.openOutput hu htarget hne hwritable
  have htransfer : (do
      let sink ← store.openOutput (shown.spell target) false
      store.closing sink (copyStream (store.read reader (some (count : Int)))
        (fun data => discard (store.write sink data)) chunks)).Refuses u
      (shown.Reading (items.put target (.file [])) source reader bytes) := by
    refine hopen'.bind_refuses fun v hv => ?_
    -- the first read is refused, and the writer is closed with nothing in it
    have hstopped : (copyStream (store.read reader (some (count : Int)))
        (fun data => discard (store.write writer data)) chunks).Refuses v
        (shown.Copying items source target reader writer bytes []) := by
      obtain ⟨chunks, rfl⟩ := Nat.exists_eq_succ_of_ne_zero (Nat.ne_of_gt (Nat.zero_lt_of_lt hchunks))
      exact (shown.read_refused hmisfit hv).bind
    exact hstopped.ensuring fun w hw => shown.close_writer hw
  exact htransfer.ensuring fun v hv => shown.close_reader hv

/-- A copy of something else than a file, onto itself, or to a place that cannot be written fails and changes
nothing. -/
theorem refuses_copy (hs : shown.Shows items s) (hsource : shown.Legal source) (htarget : shown.Legal target)
    (hroot : target ≠ []) (chunkSize : Int)
    (h : target = source ∨ (∀ bytes, items source ≠ some (.file bytes)) ∨ ¬ items.Writable target) :
    (store.copy chunks (shown.spell source) (shown.spell target) chunkSize).Refuses s (shown.Shows items) := by
  by_cases hsame : target = source
  · rw [hsame]
    exact (shown.refuses_checkDistinct hs hsource).bind
  refine (shown.yields_checkDistinct hs hsource htarget hsame).bind_refuses fun t ht => ?_
  by_cases hfile : ∃ bytes, items source = some (.file bytes)
  · obtain ⟨bytes, hfile⟩ := hfile
    have hwritable := (h.resolve_left hsame).resolve_left fun hall => hall bytes hfile
    obtain ⟨reader, hopen⟩ := shown.openInput ht hsource hfile
    refine hopen.bind_refuses fun u hu => ?_
    exact (shown.openOutput_refused hu htarget hroot hwritable).bind.ensuring fun v hv => shown.close_reader hv
  · exact (shown.openInput_refused ht hsource (not_exists.mp hfile)).bind

end Depiction

end FileRouter
