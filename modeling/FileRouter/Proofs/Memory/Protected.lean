import FileRouter.Proofs.Call
import FileRouter.Proofs.Memory.Failing
import FileRouter.Proofs.Memory.Handle
import FileRouter.Proofs.Memory.StaleHandle
import FileRouter.Proofs.Store.Command
/-!
Protected files.

No request that creates, opens or deletes touches an entry that is protected, and neither does a recursive deletion,
in either mode. Three things do, since they never look at the protection of what they touch: a move that carries the
entry off, a move that puts another entry in its place, and a handle on it that has something to store, which it can
have when it was opened before the entry was protected. As long as none of the three happens a protected file is
exactly as it was, and if one of the last two happens it is exactly what was moved or stored (`protected_run`).
-/

namespace FileRouter

namespace Store

variable {σ η : Type} {store : Store σ η} {Inv : σ → Prop}

open Call

/-- A recursive deletion keeps what the requests that it consists of keep. -/
theorem keeps_deleteRecursive (hexists : ∀ path, Keeps Inv (store.exists? path))
    (hdirectory : ∀ path, Keeps Inv (store.isDirectory path)) (hlist : ∀ path, Keeps Inv (store.listFiles path))
    (hdelete : ∀ path, Keeps Inv (store.delete path)) (tryOnly : Bool) (levels : Nat) (path : Text) :
    Keeps Inv (store.deleteRecursive tryOnly levels path) := by
  have hremove : ∀ path, Keeps Inv (store.remove tryOnly path) := by
    intro path
    cases tryOnly with
    | false => exact hdelete path
    | true =>
      exact keeps_bind (keeps_bind (keeps_failure? (hdelete path)) fun _ => keeps_pure _) fun _ => keeps_pure _
  induction levels generalizing path with
  | zero => exact keeps_throw _
  | succ levels ih =>
    rw [deleteRecursive_succ]
    -- a path is asked about, listed if it is a directory, and removed in the end; each step keeps what holds
    refine keeps_bind (hexists path) fun there => ?_
    split_ifs
    · refine keeps_bind (hdirectory path) fun isDirectory => ?_
      split_ifs
      · refine keeps_bind (hlist path) fun entries => ?_
        exact keeps_bind (keeps_forM fun entry _ => ih entry) fun _ => hremove path
      · exact hremove path
    · exact keeps_pure _

end Store

namespace Drive

open KeyMap Call

/-- A protected node is at a key. -/
def Sealed (key : Key) (node : Node) (drive : Drive) : Prop :=
  drive.tree.get? key = some node ∧ node.readOnly = true

variable {key : Key} {node : Node} {drive : Drive}

theorem Sealed.of_tree {drive' : Drive} (h : Sealed key node drive) (ht : drive'.tree = drive.tree) :
    Sealed key node drive' :=
  ⟨ht ▸ h.1, h.2⟩

theorem Sealed.put {other : Key} (h : Sealed key node drive) (hne : other ≠ key) (new : Node) :
    Sealed key node { drive with tree := drive.tree.put other new } :=
  ⟨by rw [get?_put, if_neg (Ne.symm hne), h.1], h.2⟩

/-- A free place is another one. -/
theorem Sealed.ne_of_free {other : Key} (h : Sealed key node drive) (hfree : drive.tree.get? other = none) :
    other ≠ key := by
  rintro rfl
  simp [h.1] at hfree

/-- So is the place of an entry that is not protected. -/
theorem Sealed.ne_of_open {other : Key} {found : Node} (h : Sealed key node drive)
    (hg : drive.tree.get? other = some found) (hopen : found.readOnly = false) : other ≠ key := by
  rintro rfl
  obtain rfl := Option.some.inj (h.1.symm.trans hg)
  simp [h.2] at hopen

theorem Sealed.create {other : Key} (h : Sealed key node drive) (hfree : drive.tree.get? other = none)
    (new : Node) (path : Text) : Sealed key node ((Drive.create other new path).outcome drive).2 := by
  rw [outcome_create]
  cases drive.parentFault? other path with
  | some failure => exact h
  | none => exact h.put (h.ne_of_free hfree) new

/-! ### Requests -/

theorem sealed_createDirectory (now : Int) (path : Text) : Keeps (Sealed key node) (createDirectory now path) := by
  intro drive h
  rw [outcome_createDirectory]
  cases hg : drive.tree.get? (drive.keyOf path) with
  | none => exact h.create hg _ path
  | some found =>
    simp only
    split_ifs <;> exact h

theorem sealed_createFile (now : Int) (path : Text) : Keeps (Sealed key node) (createFile now path) := by
  intro drive h
  rw [outcome_createFile]
  cases hg : drive.tree.get? (drive.keyOf path) with
  | none => exact h.create hg _ path
  | some found => exact h

/-- A deletion asks whether its entry is protected. -/
theorem sealed_delete (path : Text) : Keeps (Sealed key node) (delete path) := by
  intro drive h
  rw [outcome_delete]
  cases hg : drive.tree.get? (drive.keyOf path) with
  | none => exact h
  | some found =>
    simp only
    split_ifs with _ hopen
    · exact h
    · exact h
    · exact h
    · -- what is deleted is not protected, so it is another entry
      have hne := h.ne_of_open hg (by simpa using hopen)
      exact ⟨by rw [get?_erase, if_neg (Ne.symm hne), h.1], h.2⟩

theorem sealed_setReadOnly (path : Text) : Keeps (Sealed key node) (setReadOnly path) := by
  intro drive h
  rw [outcome_setReadOnly]
  cases hg : drive.tree.get? (drive.keyOf path) with
  | none => exact h
  | some found =>
    by_cases he : drive.keyOf path = key
    -- protecting what is protected already changes nothing about it
    · obtain rfl := Option.some.inj (h.1.symm.trans (he ▸ hg))
      refine ⟨?_, h.2⟩
      rw [get?_put, if_pos he.symm]
      simp [← h.2]
    · exact h.put he _

theorem sealed_addFile (file : DriveFile) : Keeps (Sealed key node) (addFile file) := fun _ h => h

theorem sealed_openForReading (path : Text) : Keeps (Sealed key node) (openForReading path) := by
  intro drive h
  rw [outcome_openForReading]
  cases drive.tree.get? (drive.keyOf path) with
  | none => exact h
  | some found =>
    simp only
    split_ifs
    · exact h
    · exact sealed_addFile _ drive h

theorem sealed_prepareForWriting (now : Int) (path : Text) :
    Keeps (Sealed key node) (prepareForWriting now path) := by
  intro drive h
  rw [outcome_prepareForWriting]
  cases hg : drive.tree.get? (drive.keyOf path) with
  | none => exact h.create hg _ path
  | some found =>
    simp only
    split_ifs <;> exact h

theorem sealed_openForUpdate (now : Int) (path : Text) (isSync : Bool) :
    Keeps (Sealed key node) (openForUpdate now path isSync) := by
  rw [openForUpdate]
  refine keeps_bind (sealed_prepareForWriting now path) fun bytes => ?_
  exact keeps_get fun drive h => sealed_addFile _ drive h

/-- Only what has been prepared for writing is emptied. -/
theorem sealed_openOutput (now : Int) (path : Text) (append : Bool) :
    Keeps (Sealed key node) (openOutput now path append) := by
  intro drive h
  rw [openOutput]
  refine inv_bind (sealed_prepareForWriting now path drive h) fun {bytes drive'} hprepared h' => ?_
  obtain ⟨found, hg, -, hopen⟩ := file_of_prepareForWriting hprepared
  rw [outcome_bind, outcome_get]
  simp only
  split_ifs
  · exact sealed_addFile _ drive' h'
  · -- only a file that is not protected gets this far
    have hcleared : Sealed key node ((clear now (drive'.keyOf path)).outcome drive').2 := by
      rw [outcome_clear, hg]
      exact h'.put (h'.ne_of_open hg hopen) _
    exact inv_bind hcleared fun {_ drive''} _ h'' => sealed_addFile _ drive'' h''

theorem sealed_openHandle (now : Int) (path mode : Text) : Keeps (Sealed key node) (openHandle now path mode) := by
  rw [openHandle]
  refine keeps_bind (keeps_of_unchanged fun _ => rfl) fun mode => ?_
  split_ifs
  · exact sealed_openForUpdate now path _
  · exact sealed_openForReading path

/-- A name that a search settles on is free. -/
theorem sealed_createTempWithin (limit : Nat) (now : Int) (start ending : Text) :
    Keeps (fun s : Drive × TokenSource => Sealed key node s.1) (createTempWithin limit now start ending) := by
  rintro ⟨drive, tokens⟩ h
  rw [createTempWithin, outcome_bind, outcome_get]
  simp only
  cases hs : tokens.search (fun token => drive.isUnused (drive.candidateText start ending token)) limit with
  | mk token? rest =>
    cases token? with
    | none => exact h
    | some token =>
      rw [outcome_bind, outcome_set]
      simp only
      split_ifs with hout
      · exact h
      · -- what is made is made where nothing is, so not in the place of the protected file
        have hunused := TokenSource.search_fits hs
        rw [isUnused, Bool.or_eq_true, Bool.not_eq_true', has_eq_false_iff] at hunused
        have hmade := h.create (hunused.resolve_left hout) (.newFile now) start
        revert hmade
        simp only [outcome_bind, outcome_within]
        rcases (Drive.create (Key.ofText (drive.candidateText start ending token)) (.newFile now) start).outcome
          drive with ⟨_ | _, _⟩ <;> exact id

/-- No request touches a protected entry, except that a move may carry it off or replace it. -/
theorem sealed_perform (now : Int) {request : Request} (hmove : ∀ old new replace, request ≠ .move old new replace) :
    Keeps (fun s : Drive × TokenSource => Sealed key node s.1) (perform now request) := by
  intro s h
  -- everything but a move looks at the tree, or goes through the checks that the protection refuses
  cases request with
  | move old new replace => exact absurd rfl (hmove old new replace)
  | createDirectory path => exact sealed_createDirectory now path s.1 h
  | createFile path => exact sealed_createFile now path s.1 h
  | delete path => exact sealed_delete path s.1 h
  | listFiles path => exact h.of_tree (spares_listFiles path s.1)
  | lastModified path =>
    rw [perform, outcome_plain, outcome_map]
    exact h.of_tree (spares_node path s.1)
  | size path =>
    rw [perform, outcome_plain, outcome_map]
    exact h.of_tree (spares_node path s.1)
  | openHandle path mode => exact sealed_openHandle now path mode s.1 h
  | openInput path => exact sealed_openForReading path s.1 h
  | openOutput path append => exact sealed_openOutput now path append s.1 h
  | setReadOnly path => exact sealed_setReadOnly path s.1 h
  | createTemp start ending deleteOnExit inTempDir =>
    rw [perform, createTemp, outcome_bind, outcome_get]
    exact sealed_createTempWithin _ now start ending s h
  | _ => exact h

/-- A move that puts another entry in the place of one puts it there exactly as it is. -/
theorem get?_move_target {old new : Text} {replace : Bool} (hw : drive.tree.WellFormed)
    (hmoved : ((move old new replace).outcome drive).1 = .ok ()) (hne : drive.keyOf old ≠ drive.keyOf new) :
    ((move old new replace).outcome drive).2.tree.get? (drive.keyOf new) =
      drive.tree.get? (drive.keyOf old) := by
  rw [outcome_move] at hmoved ⊢
  cases hg : drive.tree.get? (drive.keyOf old) with
  | none => simp [hg] at hmoved
  | some source =>
    rw [hg] at hmoved
    simp only [if_neg hne] at hmoved ⊢
    cases hf : drive.moveFault? old new replace with
    | some failure => simp [hf] at hmoved
    | none =>
      obtain ⟨-, -, -, hfree⟩ := moveFault?_eq_none hf
      have hbare : BareAt drive.tree (drive.keyOf new) := hw.rooted.bareAt fun hn => (hfree hn).2
      have hself : (drive.keyOf new).isPrefixOf (drive.keyOf new) = true :=
        List.isPrefixOf_iff_prefix.mpr (List.prefix_refl _)
      rw [get?_rename hw.distinct hbare, if_pos hself, List.drop_length, List.append_nil, hg]

/-! ### Handles -/

variable {index : Nat} {file : DriveFile}

/-- A changed buffer stays in a handle that is not synchronous. -/
theorem tree_accept (now : Int) (h : drive.files[index]? = some file) (hsync : file.isSync = false)
    (cursor : Cursor) : ((accept now index cursor).outcome drive).2.tree = drive.tree := by
  rw [outcome_accept_of_found now h, if_neg (by simp [hsync])]

theorem tree_flush_of_idle (now : Int) (h : drive.files[index]? = some file) (hidle : file.pending .flush = none) :
    ((flush now index).outcome drive).2.tree = drive.tree := by
  by_cases hclosed : file.closed = true
  · rw [flush, outcome_bind, outcome_openFile_of_closed h hclosed]
  · rw [Bool.not_eq_true] at hclosed
    have hclean : file.dirty = false := by simpa [DriveFile.pending, hclosed] using hidle
    rw [outcome_flush_clean now h hclosed hclean]

theorem tree_close_of_idle (now : Int) (h : drive.files[index]? = some file) (hidle : file.pending .close = none) :
    ((close now index).outcome drive).2.tree = drive.tree := by
  rw [outcome_close_of_found now h]
  split_ifs
  · rfl
  · rw [outcome_ensuring_snd]
    exact (spares_changeFile index _ _).trans (tree_flush_of_idle now h hidle)

theorem tree_write_of_idle (now : Int) (h : drive.files[index]? = some file) {data : Bytes}
    (hidle : file.pending (.write data) = none) : ((write now index data).outcome drive).2.tree = drive.tree := by
  rw [outcome_write_of_found now h]
  by_cases hwrite : file.canWrite = true
  · rw [if_pos hwrite]
    by_cases hclosed : file.closed = true
    · rw [if_pos hclosed]
    · have hsync : file.isSync = false := by simpa [DriveFile.pending, hwrite, hclosed] using hidle
      rw [if_neg hclosed, outcome_bind_pure_snd, tree_accept now h hsync]
  · rw [if_neg hwrite]

theorem tree_truncate_of_idle (now : Int) (h : drive.files[index]? = some file) {size : Option Int}
    (hidle : file.pending (.truncate size) = none) :
    ((truncate now index size).outcome drive).2.tree = drive.tree := by
  rw [outcome_truncate_of_found now h]
  split_ifs with hwrite hclosed
  · rfl
  · cases hcut : file.cursor.truncate size with
    | error failure => rfl
    | ok cut =>
      have hsync : file.isSync = false := by simpa [DriveFile.pending, hwrite, hclosed, hcut] using hidle
      simp only
      rw [outcome_bind_pure_snd, tree_accept now h hsync]
  · rfl

/-- A request that has nothing to store leaves the tree as it is. -/
theorem tree_onFile_of_idle (now : Int) {request : StreamRequest}
    (hidle : ∀ file, drive.files[index]? = some file → file.pending request = none) :
    ((onFile now index request).outcome drive).2.tree = drive.tree := by
  cases hfile : drive.files[index]? with
  | none =>
    obtain ⟨failure, hfails⟩ := outcome_onFile_of_missing now hfile request
    rw [hfails]
  | some file =>
    have hnone := hidle file hfile
    cases request <;> rw [onFile]
    case write data => exact tree_write_of_idle now hfile hnone
    case truncate size => exact tree_truncate_of_idle now hfile hnone
    case flush => exact tree_flush_of_idle now hfile hnone
    case close => exact tree_close_of_idle now hfile hnone
    -- no other request has anything to store
    case read count => exact spares_takeCounted index count _ drive
    case readLine limit => exact spares_takeCounted index limit _ drive
    case readLines => exact spares_take index _ drive
    case seek offset whence => exact spares_seek index offset whence drive
    case tell | readable | seekable =>
      rw [outcome_map]
      exact spares_openFile index drive
    case closed =>
      rw [outcome_map]
      exact spares_file index drive
    case writable =>
      refine spares_bind (spares_file index) (fun file => ?_) drive
      split_ifs
      · exact fun _ => by rw [outcome_map]; exact spares_openFile index _
      · exact spares_pure _

/-- A request that has something to store in a file puts it there. -/
theorem tree_onFile_of_pending (now : Int) {request : StreamRequest} {bytes : Bytes} {node : Node}
    (h : drive.files[index]? = some file) (hp : file.pending request = some bytes)
    (hg : drive.tree.get? file.key = some node) (hfile : node.isDirectory = false) :
    ((onFile now index request).outcome drive).2.tree = drive.tree.put file.key (node.written bytes now) := by
  rw [(endsLike_commit now h hp).tree, outcome_commit, hg]
  simp [hfile]

/-- Of a protected entry, only what is stored through a handle on it changes something. -/
theorem sealed_onFile (now : Int) {request : StreamRequest} (h : Sealed key node drive)
    (hkeep : ∀ file bytes, drive.files[index]? = some file → file.pending request = some bytes →
      file.key ≠ key) :
    Sealed key node ((onFile now index request).outcome drive).2 := by
  by_cases hidle : ∀ file, drive.files[index]? = some file → file.pending request = none
  · exact h.of_tree (tree_onFile_of_idle now hidle)
  · simp only [not_forall] at hidle
    obtain ⟨file, hfile, hsome⟩ := hidle
    obtain ⟨bytes, hp⟩ := Option.ne_none_iff_exists'.mp hsome
    refine Sealed.of_tree ?_ (endsLike_commit now hfile hp).tree
    rw [outcome_commit]
    cases drive.tree.get? file.key with
    | none => exact h
    | some found =>
      simp only
      split_ifs
      · exact h
      · exact h.put (hkeep file bytes hfile hp) _

/-! ### Runs -/

/-- Something that is done to a drive: a single action, or a recursive deletion with some number of levels. -/
inductive Deed where
  | single (action : Action)
  | deleteRecursive (now : Int) (levels : Nat) (path : Text) (tryOnly : Bool)

/-- What a deed leaves, however it ends. -/
def done (s : Drive × TokenSource) : Deed → Drive × TokenSource
  | .single action => act s action
  | .deleteRecursive now levels path tryOnly =>
    (((alone now).deleteRecursive tryOnly levels path).outcome s).2

/-- What some deeds leave. -/
def doneAll (s : Drive × TokenSource) (deeds : List Deed) : Drive × TokenSource :=
  deeds.foldl done s

/-- The action ends well and carries off what is at a key. -/
def CarriesOff (s : Drive × TokenSource) (key : Key) : Action → Prop
  | .ask _ (.move old new replace) =>
    ((move old new replace).outcome s.1).1 = .ok () ∧ s.1.keyOf old ≠ s.1.keyOf new ∧ s.1.keyOf old <+: key
  | _ => False

/-- The action ends well and puts another entry in the place of what is at a key. -/
def Replaces (s : Drive × TokenSource) (key : Key) : Action → Prop
  | .ask _ (.move old new replace) =>
    ((move old new replace).outcome s.1).1 = .ok () ∧ s.1.keyOf old ≠ s.1.keyOf new ∧ s.1.keyOf new = key
  | _ => False

/-- The action has something to store through a handle on a key. -/
def Stores (s : Drive × TokenSource) (key : Key) : Action → Prop
  | .use _ index request =>
    ∃ file bytes, s.1.files[index]? = some file ∧ file.pending request = some bytes ∧ file.key = key
  | _ => False

/-- None of some deeds carries off, replaces or stores anything at a key, each in the state that it finds. -/
def Spared (key : Key) : Drive × TokenSource → List Deed → Prop
  | _, [] => True
  | s, .single action :: deeds =>
    (¬ CarriesOff s key action ∧ ¬ Replaces s key action ∧ ¬ Stores s key action) ∧
      Spared key (act s action) deeds
  | s, deed :: deeds => Spared key (done s deed) deeds

theorem sealed_act {s : Drive × TokenSource} {action : Action} (hw : s.1.tree.WellFormed)
    (h : Sealed key node s.1) (hcarried : ¬ CarriesOff s key action) (hreplaced : ¬ Replaces s key action)
    (hstored : ¬ Stores s key action) : Sealed key node (act s action).1 := by
  cases action with
  | search limit now start ending => exact sealed_createTempWithin limit now start ending s h
  | use now index request =>
    exact sealed_onFile now h fun file bytes hfile hp he => hstored ⟨file, bytes, hfile, hp, he⟩
  | ask now request =>
    by_cases hmove : ∃ old new replace, request = .move old new replace
    · obtain ⟨old, new, replace, rfl⟩ := hmove
      refine ⟨get?_move_of_spared hw h.1 ?_, h.2⟩
      rintro ⟨hok, hne, hold | hnew⟩
      · exact hcarried ⟨hok, hne, hold⟩
      · exact hreplaced ⟨hok, hne, hnew⟩
    · exact sealed_perform now (fun old new replace he => hmove ⟨old, new, replace, he⟩) s h

/-- A recursive deletion takes requests alone, and none of them is a move. -/
theorem keeps_deleteRecursive {Inv : Drive × TokenSource → Prop} (now : Int)
    (h : ∀ request, (∀ old new replace, request ≠ .move old new replace) → Keeps Inv (perform now request))
    (tryOnly : Bool) (levels : Nat) (path : Text) :
    Keeps Inv ((alone now).deleteRecursive tryOnly levels path) :=
  Store.keeps_deleteRecursive (fun path => h (.exists path) (by simp)) (fun path => h (.isDirectory path) (by simp))
    (fun path => h (.listFiles path) (by simp)) (fun path => h (.delete path) (by simp)) tryOnly levels path

theorem wellFormed_done {s : Drive × TokenSource} (h : s.1.tree.WellFormed) (deed : Deed) :
    (done s deed).1.tree.WellFormed := by
  cases deed with
  | single action => exact Tree.wellFormed_of_steps (later_act s action).tree h
  | deleteRecursive now levels path tryOnly =>
    have hrequest : ∀ request, Keeps (fun s : Drive × TokenSource => s.1.tree.WellFormed) (perform now request) :=
      fun request s h => Tree.wellFormed_of_steps (later_act s (.ask now request)).tree h
    exact keeps_deleteRecursive now (fun request _ => hrequest request) tryOnly levels path s h

theorem wellFormed_doneAll {s : Drive × TokenSource} (h : s.1.tree.WellFormed) (deeds : List Deed) :
    (doneAll s deeds).1.tree.WellFormed := by
  induction deeds generalizing s with
  | nil => exact h
  | cons deed deeds ih => exact ih (wellFormed_done h deed)

/-- Deeds that spare a protected entry leave it as it is. -/
theorem sealed_doneAll {s : Drive × TokenSource} {deeds : List Deed} (hw : s.1.tree.WellFormed)
    (h : Sealed key node s.1) (hspared : Spared key s deeds) : Sealed key node (doneAll s deeds).1 := by
  induction deeds generalizing s with
  | nil => exact h
  | cons deed deeds ih =>
    have hw' := wellFormed_done hw deed
    cases deed with
    | single action =>
      obtain ⟨⟨hcarried, hreplaced, hstored⟩, hrest⟩ := hspared
      exact ih hw' (sealed_act hw h hcarried hreplaced hstored) hrest
    | deleteRecursive now levels path tryOnly =>
      have hkeeps : Keeps (fun s : Drive × TokenSource => Sealed key node s.1)
          ((alone now).deleteRecursive tryOnly levels path) :=
        keeps_deleteRecursive now (fun _ hmove => sealed_perform now hmove) tryOnly levels path
      exact ih hw' (hkeeps s h) hspared

/-- **A protected file stays as it is.** After any run from a fresh drive a file is protected, and any number of deeds
follow that neither carry it off nor replace it nor store anything through a handle on it: it is still the same file,
with its bytes and its time, and protected. If something is stored next, exactly that is in it and it stays
protected; if another entry is moved to its place next, that entry is there exactly as it was. -/
theorem protected_run {scheme path : Text} {start now : Int} {tokens : TokenSource} {earlier later : List Deed}
    {s marked : Drive × TokenSource} (hs : doneAll (.fresh scheme start, tokens) earlier = s)
    (hnode : s.1.tree.get? (s.1.keyOf path) = some node) (hfile : node.isDirectory = false)
    (hmarked : (perform now (.setReadOnly path)).outcome s = (.ok true, marked))
    (hspared : Spared (s.1.keyOf path) marked later) :
    (doneAll marked later).1.tree.get? (s.1.keyOf path) = some { node with readOnly := true } ∧
    (∀ {index : Nat} {file : DriveFile} {moment : Int} {request : StreamRequest} {bytes : Bytes},
      (doneAll marked later).1.files[index]? = some file → file.key = s.1.keyOf path →
      file.pending request = some bytes →
        (act (doneAll marked later) (.use moment index request)).1.tree.get? (s.1.keyOf path) =
          some ⟨false, bytes, moment, true⟩) ∧
    ∀ {old new : Text} {replace : Bool} {moment : Int},
      ((move old new replace).outcome (doneAll marked later).1).1 = .ok () →
      (doneAll marked later).1.keyOf old ≠ (doneAll marked later).1.keyOf new →
      (doneAll marked later).1.keyOf new = s.1.keyOf path →
        (act (doneAll marked later) (.ask moment (.move old new replace))).1.tree.get? (s.1.keyOf path) =
          (doneAll marked later).1.tree.get? ((doneAll marked later).1.keyOf old) := by
  have hw : s.1.tree.WellFormed := hs ▸ wellFormed_doneAll (.fresh start) earlier
  have hprotected : Sealed (s.1.keyOf path) { node with readOnly := true } marked.1 := by
    rw [perform, outcome_plain, outcome_setReadOnly, hnode, Prod.mk.injEq] at hmarked
    obtain ⟨-, rfl⟩ := hmarked
    exact ⟨by rw [get?_put, if_pos rfl], rfl⟩
  have hw' : marked.1.tree.WellFormed := by
    have hafter := wellFormed_done hw (.single (.ask now (.setReadOnly path)))
    rwa [done, act, hmarked] at hafter
  -- the protection lasts through the run, so each of the two ways around it finds the protected file
  obtain ⟨hg, -⟩ := sealed_doneAll hw' hprotected hspared
  refine ⟨hg, fun {index file moment request bytes} hopen hkey hp => ?_, fun {old new replace moment} hok hne hkey => ?_⟩
  · have hthere : (doneAll marked later).1.tree.get? file.key = some { node with readOnly := true } := hkey ▸ hg
    rw [act, outcome_plain, tree_onFile_of_pending moment hopen hp hthere hfile, hkey, get?_put, if_pos rfl]
    simp [Node.written, hfile]
  · rw [act, perform, outcome_plain, ← hkey]
    exact get?_move_target (wellFormed_doneAll hw' later) hok hne

/-- Opening a file, writing to it without storing that, and making a second file. -/
def preparations : List Deed :=
  [.single (.ask 0 (.openOutput "mem:/a".toList false)), .single (.use 0 0 (.write [120])),
    .single (.ask 0 (.createFile "mem:/b".toList))]

/-- The drive and the tokens that this leaves. -/
def halfWritten : Drive × TokenSource := doneAll (.fresh "mem".toList 0, .counting []) preparations

/-- The same, once the first file has been protected. -/
def halfWrittenMarked : Drive × TokenSource := ((perform 1 (.setReadOnly "mem:/a".toList)).outcome halfWritten).2

theorem keyOf_halfWritten : halfWritten.1.keyOf "mem:/a".toList = [['a']] := by decide

theorem get?_halfWritten : halfWritten.1.tree.get? [['a']] = some ⟨false, [], 0, false⟩ := by decide

theorem outcome_setReadOnly_halfWritten :
    (perform 1 (.setReadOnly "mem:/a".toList)).outcome halfWritten = (.ok true, halfWrittenMarked) := rfl

/-- Deleting the protected file in two ways and opening it for writing. -/
def assaults : List Deed :=
  [.single (.ask 2 (.delete "mem:/a".toList)), .deleteRecursive 3 5 "mem:/a".toList true,
    .single (.ask 4 (.openOutput "mem:/a".toList false))]

/-- Neither a deletion nor opening it for writing does anything to the file; the handle that was opened before is
closed then and fills it, or the other file takes its place. -/
theorem protected_run_halfWritten :
    (doneAll halfWrittenMarked assaults).1.tree.get? [['a']] = some ⟨false, [], 0, true⟩ ∧
      (act (doneAll halfWrittenMarked assaults) (.use 5 0 .close)).1.tree.get? [['a']] =
        some ⟨false, [120], 5, true⟩ ∧
      (act (doneAll halfWrittenMarked assaults)
          (.ask 5 (.move "mem:/b".toList "mem:/a".toList true))).1.tree.get? [['a']] =
        some ⟨false, [], 0, false⟩ := by
  have hnode := get?_halfWritten
  have hspared : Spared [['a']] halfWrittenMarked assaults := ⟨⟨id, id, id⟩, ⟨id, id, id⟩, trivial⟩
  rw [← keyOf_halfWritten] at hnode hspared
  -- the run is the one that ends in `halfWritten`, and none of the assaults lifts the protection
  have hrun : doneAll (.fresh "mem".toList 0, .counting []) preparations = halfWritten := rfl
  obtain ⟨hstays, hstored, hreplaced⟩ :=
    protected_run hrun hnode rfl outcome_setReadOnly_halfWritten hspared
  rw [keyOf_halfWritten] at hstays hstored hreplaced
  have hopen : (doneAll halfWrittenMarked assaults).1.files[0]? = some lateHandle := by decide +kernel
  have hold : (doneAll halfWrittenMarked assaults).1.keyOf "mem:/b".toList = [['b']] := by decide +kernel
  have hnew : (doneAll halfWrittenMarked assaults).1.keyOf "mem:/a".toList = [['a']] := by decide +kernel
  have hmoved : ((move "mem:/b".toList "mem:/a".toList true).outcome (doneAll halfWrittenMarked assaults).1).1 =
      .ok () := by decide +kernel
  have hother : (doneAll halfWrittenMarked assaults).1.tree.get? [['b']] = some (.newFile 0) := by decide +kernel
  have hne : (doneAll halfWrittenMarked assaults).1.keyOf "mem:/b".toList ≠
      (doneAll halfWrittenMarked assaults).1.keyOf "mem:/a".toList := by
    rw [hold, hnew]
    decide
  refine ⟨hstays, hstored hopen rfl pending_lateHandle, ?_⟩
  rw [hreplaced hmoved hne hnew, hold, hother]
  rfl

/-- A protected file does not stay as it is whenever no move carries it off. -/
theorem not_forall_protected_run :
    ¬ ∀ {scheme path : Text} {start now : Int} {tokens : TokenSource} {earlier later : List Deed}
      {s marked : Drive × TokenSource} {node : Node}, doneAll (.fresh scheme start, tokens) earlier = s →
      s.1.tree.get? (s.1.keyOf path) = some node → node.isDirectory = false →
      (perform now (.setReadOnly path)).outcome s = (.ok true, marked) →
      (∀ before action after, later = before ++ .single action :: after →
        ¬ CarriesOff (doneAll marked before) (s.1.keyOf path) action) →
      ∃ found, (doneAll marked later).1.tree.get? (s.1.keyOf path) = some found ∧ found.isDirectory = false ∧
        found.readOnly = true ∧ found.bytes = node.bytes := by
  intro h
  have hnode := get?_halfWritten
  rw [← keyOf_halfWritten] at hnode
  have hrun : doneAll (.fresh "mem".toList 0, .counting []) preparations = halfWritten := rfl
  -- closing the handle that was opened before moves nothing
  have hcalm : ∀ before action after,
      [Deed.single (.use 5 0 .close)] = before ++ .single action :: after →
        ¬ CarriesOff (doneAll halfWrittenMarked before) (halfWritten.1.keyOf "mem:/a".toList) action := by
    rintro (_ | ⟨first, before⟩) action after he
    · obtain ⟨rfl, -⟩ : action = .use 5 0 .close ∧ after = [] := by simpa using he.symm
      exact id
    · simp at he
  obtain ⟨found, hfound, -, -, hbytes⟩ := h hrun hnode rfl outcome_setReadOnly_halfWritten hcalm
  rw [keyOf_halfWritten] at hfound
  have hfull : (doneAll halfWrittenMarked [.single (.use 5 0 .close)]).1.tree.get? [['a']] =
      some ⟨false, [120], 5, true⟩ := by decide
  obtain rfl := Option.some.inj (hfull.symm.trans hfound)
  simp at hbytes

end Drive

end FileRouter
