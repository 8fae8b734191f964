import FileRouter.Proofs.Memory.Saving
/-!
What is written through a handle.

A file can be opened for writing in several ways (`Writing`). Each of them says how a buffer with a position follows
the requests to the handle (`Writing.next`), where it starts, and which requests store it (`Writing.publishes`). As long
as nothing else changes the file, a handle follows that buffer (`Follows`): what is in the file differs from the buffer
only while the handle holds changes, and never in a synchronous mode. So the file holds the buffer after every request
that stores it, and in between what it held before (`contentAt?_written`).
-/

namespace FileRouter

/-- A way of opening a file for writing: in a mode that writes, or as an output stream. -/
inductive Writing where
  | update (mode : HandleMode) (writes : mode.writes = true)
  | output (append : Bool)

namespace Writing

/-- The request that opens a file in this way. -/
def request (path : Text) : Writing → Request
  | update mode _ => .openHandle path mode.name
  | output append => .openOutput path append

/-- Whether every write goes to the end. -/
def appends : Writing → Bool
  | update _ _ => false
  | output append => append

/-- Whether every change is stored at once. -/
def isSync : Writing → Bool
  | update mode _ => mode.isSync
  | output _ => false

/-- The buffer for a file with some bytes. An output stream that does not append starts from nothing. -/
def start (bytes : Bytes) : Writing → Cursor
  | update _ _ => ⟨bytes, 0⟩
  | output true => ⟨bytes, bytes.length⟩
  | output false => ⟨[], 0⟩

/-- What a request makes of the buffer. -/
def next (way : Writing) (c : Cursor) : StreamRequest → Cursor
  | .write data => (if way.appends then c.toEnd else c).write data
  | request => (c.respond request).2

/-- The buffer for a file with some bytes, after some requests. -/
def buffer (way : Writing) (bytes : Bytes) (requests : List StreamRequest) : Cursor :=
  requests.foldl way.next (way.start bytes)

/-- Whether a request stores the buffer. -/
def publishes (way : Writing) : StreamRequest → Bool
  | .flush | .close => true
  | .write _ | .truncate _ => way.isSync
  | _ => false

/-- A handle that was opened in this way on the file at a key, and is still open. -/
def handle (way : Writing) (key : Key) (c : Cursor) (dirty : Bool) : DriveFile :=
  ⟨key, c, true, way.appends, way.isSync, dirty, false⟩

/-- What some requests write, piece by piece. -/
def pieces (requests : List StreamRequest) : List Bytes :=
  requests.filterMap fun
    | .write data => some data
    | _ => none

variable {way : Writing} {key : Key} {c : Cursor} {dirty : Bool} {request : StreamRequest}

/-! ### The handle and the buffer -/

/-- Until it is closed, a handle stays one that was opened in the same way. -/
theorem after_handle (h : request ≠ .close) :
    (way.handle key c dirty).after request =
      way.handle key (way.next c request) ((way.handle key c dirty).after request).dirty := by
  cases request with
  | close => exact absurd rfl h
  | truncate size => cases hcut : c.truncate size <;>
      simp [DriveFile.after, DriveFile.accepted?, handle, next, Cursor.respond, hcut, Except.toOption]
  | _ => rfl

theorem cursor_after : ((way.handle key c dirty).after request).cursor = way.next c request := by
  by_cases hclose : request = .close
  · rw [hclose]
    rfl
  · rw [after_handle hclose]
    rfl

/-- What a handle does not accept changes no byte of the buffer. -/
theorem bytes_next_of_refused (h : (way.handle key c dirty).accepted? request = none) :
    (way.next c request).bytes = c.bytes := by
  cases request with
  | write data => simp [DriveFile.accepted?, handle] at h
  | truncate size => cases hcut : c.truncate size <;>
      simp_all [DriveFile.accepted?, handle, next, Cursor.respond, Except.toOption]
  | seek offset whence =>
    cases hmoved : c.seek offset whence with
    | error failure => simp only [next, Cursor.respond, hmoved]
    | ok moved =>
      simp only [next, Cursor.respond, hmoved]
      exact Cursor.bytes_seek hmoved
  | read count => exact Cursor.bytes_counted (fun _ => rfl) count
  | readLine limit => exact Cursor.bytes_counted (fun _ => rfl) limit
  | _ => rfl

/-- A request that does not store the buffer finds nothing to store. -/
theorem pending_of_not_publishes (h : way.publishes request = false) :
    (way.handle key c dirty).pending request = none := by
  cases request with
  | flush | close => simp [publishes] at h
  | write data | truncate size =>
    have hsync : way.isSync = false := h
    simp [DriveFile.pending, handle, hsync]
  | _ => rfl

/-- A request that stores the buffer finds nothing to store only if there are no changes, old or new. -/
theorem clean_of_idle (hsync : way.isSync = true → dirty = false) (hpublishes : way.publishes request = true)
    (hidle : (way.handle key c dirty).pending request = none) :
    dirty = false ∧ (way.handle key c dirty).accepted? request = none := by
  cases request with
  | flush | close => simpa [DriveFile.pending, DriveFile.accepted?, handle] using hidle
  | write data =>
    have hsync : way.isSync = true := hpublishes
    simp [DriveFile.pending, handle, hsync] at hidle
  | truncate size =>
    have hatOnce : way.isSync = true := hpublishes
    refine ⟨hsync hatOnce, ?_⟩
    cases hcut : c.truncate size <;>
      simp_all [DriveFile.pending, DriveFile.accepted?, handle, Except.toOption]
  | _ => simp [publishes] at hpublishes

/-- A handle without changes has stored the buffer, or had no changes before and did not accept any. -/
theorem clean_after_handle (h : ((way.handle key c dirty).after request).dirty = false) :
    way.publishes request = true ∨ dirty = false ∧ (way.next c request).bytes = c.bytes := by
  have hdirty := mt (DriveFile.dirty_after (by simp [handle])).mpr (ne_true_of_eq_false h)
  by_cases hpublishes : way.publishes request = true
  · exact Or.inl hpublishes
  · have hsettles : (way.handle key c dirty).settles request = false := by
      cases request with
      | flush | close => exact absurd rfl hpublishes
      | write data | truncate size =>
        have hsync : way.isSync = false := by simpa [publishes] using hpublishes
        simp [DriveFile.settles, handle, hsync]
      | _ => simp [DriveFile.settles, DriveFile.accepted?]
    simp only [hsettles, true_and, not_or, Bool.not_eq_true, Option.isSome_eq_false_iff, Option.isNone_iff_eq_none]
      at hdirty
    exact Or.inr ⟨hdirty.1, bytes_next_of_refused hdirty.2⟩

/-- In a synchronous mode a handle never has changes. -/
theorem clean_after_of_isSync (hsync : way.isSync = true) (hclean : dirty = false) :
    ((way.handle key c dirty).after request).dirty = false := by
  rw [Bool.eq_false_iff, ne_eq, DriveFile.dirty_after (by simp [handle]), not_and]
  rintro hsettles (hdirty | haccepts)
  · exact absurd hdirty (by simp [handle, hclean])
  · cases request with
    | write data | truncate size =>
      -- what a synchronous handle accepts settles it
      have hatOnce : (way.handle key c dirty).isSync = true := hsync
      simp [DriveFile.settles, hatOnce, haccepts] at hsettles
    | _ => simp [DriveFile.accepted?] at haccepts

/-! ### Appending -/

/-- Whatever its position, a buffer for appending is written at its end. -/
theorem bytes_next_of_appends (h : way.appends = true) (c : Cursor) (data : Bytes) :
    (way.next c (.write data)).bytes = c.bytes ++ data := by
  rw [next, if_pos h]
  by_cases hdata : data = []
  · rw [hdata, List.append_nil]
    rfl
  · rw [Cursor.toEnd, Cursor.write_end hdata]

theorem bytes_start_of_appends (h : way.appends = true) (bytes : Bytes) : (way.start bytes).bytes = bytes := by
  cases way with
  | update mode hwrites => simp [appends] at h
  | output append =>
    cases append with
    | false => simp [appends] at h
    | true => rfl

/-- Without truncations the pieces that are written to a buffer for appending come one after the other. -/
theorem bytes_foldl_of_appends (h : way.appends = true) {requests : List StreamRequest}
    (hcut : ∀ size, .truncate size ∉ requests) (c : Cursor) :
    (requests.foldl way.next c).bytes = c.bytes ++ (pieces requests).flatten := by
  induction requests generalizing c with
  | nil => exact (List.append_nil c.bytes).symm
  | cons request requests ih =>
    have hrest : ∀ size, .truncate size ∉ requests := fun size hm => hcut size (List.mem_cons_of_mem _ hm)
    rw [List.foldl_cons, ih hrest]
    cases request with
    | write data =>
      have hpieces : pieces (.write data :: requests) = data :: pieces requests := rfl
      rw [bytes_next_of_appends h, hpieces, List.flatten_cons, List.append_assoc]
    | truncate size => exact absurd List.mem_cons_self (hcut size)
    | _ => rw [@bytes_next_of_refused way [] c false _ (by simp [DriveFile.accepted?])]; rfl

end Writing

namespace Drive

open KeyMap Call

/-! ### A handle that follows a buffer -/

/-- The handle with an index was opened in some way on the file that a path names, is still open, and has the buffer.
If it has no changes, the file holds the bytes of the buffer; in a synchronous mode it has none. -/
structure Follows (way : Writing) (index : Nat) (path : Text) (c : Cursor) (dirty : Bool) (drive : Drive) : Prop where
  found : drive.files[index]? = some (way.handle (drive.keyOf path) c dirty)
  stored : ∃ bytes, drive.contentAt? path = some bytes ∧ (dirty = false → bytes = c.bytes)
  sync : way.isSync = true → dirty = false

variable {way : Writing} {index : Nat} {path : Text} {c : Cursor} {dirty : Bool} {s : Drive × TokenSource}
  {action : Action} {actions : List Action}

theorem keyOf_act (s : Drive × TokenSource) (action : Action) (path : Text) :
    (act s action).1.keyOf path = s.1.keyOf path := by
  rw [keyOf, keyOf, (later_act s action).scheme]

theorem contentAt?_act_of_tree (h : (act s action).1.tree = s.1.tree) (path : Text) :
    (act s action).1.contentAt? path = s.1.contentAt? path := by
  rw [contentAt?, contentAt?, node?, node?, keyOf_act, h]

/-- **What a request to the handle leaves in the file**: the buffer, if the request stores it, and otherwise what was
there. -/
theorem Follows.contentAt?_use (h : Follows way index path c dirty s.1) (now : Int) (request : StreamRequest) :
    (act s (.use now index request)).1.contentAt? path =
      if way.publishes request then some (way.next c request).bytes else s.1.contentAt? path := by
  obtain ⟨bytes, hcontent, hbytes⟩ := h.stored
  -- a request that finds nothing to store may still store the buffer: then the file holds it already
  cases hp : (way.handle (s.1.keyOf path) c dirty).pending request with
  | none =>
    have htree : (act s (.use now index request)).1.tree = s.1.tree := by
      refine tree_onFile_of_idle now fun file hfile => ?_
      obtain rfl := Option.some.inj (h.found.symm.trans hfile)
      exact hp
    rw [contentAt?_act_of_tree htree]
    split_ifs with hpublishes
    · obtain ⟨hclean, hrefused⟩ := Writing.clean_of_idle h.sync hpublishes hp
      rw [hcontent, hbytes hclean, Writing.bytes_next_of_refused hrefused]
    · rfl
  | some stored =>
    have hpublishes : way.publishes request = true := by
      by_contra hnot
      rw [Writing.pending_of_not_publishes (by simpa using hnot)] at hp
      exact Option.some_ne_none _ hp.symm
    obtain ⟨node, hnode, hfile, -⟩ := contentAt?_eq_some_iff.mp hcontent
    have htree : (act s (.use now index request)).1.tree = s.1.tree.put (s.1.keyOf path) (node.written stored now) :=
      tree_onFile_of_pending now h.found hp hnode hfile
    rw [if_pos hpublishes, contentAt?_eq_some_iff, node?, keyOf_act, htree, get?_put, if_pos rfl]
    refine ⟨_, rfl, hfile, ?_⟩
    rw [← Writing.cursor_after, DriveFile.bytes_after hp]
    rfl

/-- A handle follows the buffer through every request but the one that closes it. -/
theorem Follows.use (h : Follows way index path c dirty s.1) (now : Int) {request : StreamRequest}
    (hopen : request ≠ .close) :
    ∃ dirty', Follows way index path (way.next c request) dirty' (act s (.use now index request)).1 := by
  obtain ⟨bytes, hcontent, hbytes⟩ := h.stored
  refine ⟨((way.handle (s.1.keyOf path) c dirty).after request).dirty, ?_, ?_,
    fun hsync => Writing.clean_after_of_isSync hsync (h.sync hsync)⟩
  · rw [files_use, if_pos rfl, h.found, keyOf_act, ← Writing.after_handle hopen]
    rfl
  · rw [h.contentAt?_use now request]
    split_ifs with hpublishes
    · exact ⟨_, rfl, fun _ => rfl⟩
    · refine ⟨bytes, hcontent, fun hclean => ?_⟩
      obtain hpublishes' | ⟨hclean, hsame⟩ := Writing.clean_after_handle hclean
      · exact absurd hpublishes' hpublishes
      · rw [hbytes hclean, hsame]

/-! ### Runs -/

/-- The request that an action makes to the handle with an index, if it makes one. -/
def call? (index : Nat) : Action → Option StreamRequest
  | .use _ used request => if used = index then some request else none
  | .ask _ _ | .search _ _ _ _ => none

/-- The requests that a run makes to the handle with an index. -/
def calls (index : Nat) (actions : List Action) : List StreamRequest :=
  actions.filterMap (call? index)

/-- Besides the requests to the handle with an index, no action of a run changes what is in the file that a path
names. -/
def LeftAlone (index : Nat) (path : Text) : Drive × TokenSource → List Action → Prop
  | _, [] => True
  | s, action :: actions =>
    (call? index action = none → (act s action).1.contentAt? path = s.1.contentAt? path) ∧
      LeftAlone index path (act s action) actions

instance decidableLeftAlone (index : Nat) (path : Text) :
    (s : Drive × TokenSource) → (actions : List Action) → Decidable (LeftAlone index path s actions)
  | _, [] => .isTrue trivial
  | s, action :: actions =>
    have := decidableLeftAlone index path (act s action) actions
    inferInstanceAs (Decidable (_ ∧ _))

theorem eq_use_of_call? {request : StreamRequest} (h : call? index action = some request) :
    ∃ now, action = .use now index request := by
  cases action with
  | ask | search => simp [call?] at h
  | use now used other =>
    simp only [call?, Option.ite_none_right_eq_some, Option.some.injEq] at h
    obtain ⟨rfl, rfl⟩ := h
    exact ⟨now, rfl⟩

/-- A handle follows the buffer through every other action that leaves what is in the file. -/
theorem Follows.other (h : Follows way index path c dirty s.1) (hother : call? index action = none)
    (hcontent : (act s action).1.contentAt? path = s.1.contentAt? path) :
    Follows way index path c dirty (act s action).1 := by
  refine ⟨?_, by rw [hcontent]; exact h.stored, h.sync⟩
  rw [keyOf_act]
  cases action with
  | ask | search => exact (grown_act (by simp)).getElem? h.found
  | use now used request =>
    have hne : index ≠ used := fun he => by simp [call?, he] at hother
    rw [files_use, if_neg hne, h.found]

/-- **A handle follows the buffer** through every run that leaves the file alone and does not close the handle. -/
theorem Follows.of_run (h : Follows way index path c dirty s.1) (halone : LeftAlone index path s actions)
    (hopen : .close ∉ calls index actions) :
    ∃ dirty', Follows way index path ((calls index actions).foldl way.next c) dirty' (run s actions).1 := by
  induction actions generalizing s c dirty with
  | nil => exact ⟨dirty, h⟩
  | cons action actions ih =>
    -- an action is a request to this handle, or leaves the handle and the file alone
    obtain ⟨hcontent, hrest⟩ := halone
    rw [calls] at hopen ⊢
    cases hcall : call? index action with
    | none =>
      rw [List.filterMap_cons_none hcall] at hopen ⊢
      exact ih (h.other hcall (hcontent hcall)) hrest hopen
    | some request =>
      rw [List.filterMap_cons_some hcall] at hopen ⊢
      obtain ⟨now, rfl⟩ := eq_use_of_call? hcall
      obtain ⟨hfirst, hlater⟩ := not_or.mp (mt List.mem_cons.mpr hopen)
      obtain ⟨dirty', hnext⟩ := h.use now (Ne.symm hfirst)
      exact ih hnext hrest hlater

/-- What is in the file stays there as long as no request stores the buffer. -/
theorem Follows.contentAt?_run (h : Follows way index path c dirty s.1) (halone : LeftAlone index path s actions)
    (hquiet : ∀ request ∈ calls index actions, way.publishes request = false) :
    (run s actions).1.contentAt? path = s.1.contentAt? path := by
  induction actions generalizing s c dirty with
  | nil => rfl
  | cons action actions ih =>
    obtain ⟨hcontent, hrest⟩ := halone
    rw [calls] at hquiet
    -- an action elsewhere is left alone by hypothesis, and a request to the handle publishes nothing
    cases hcall : call? index action with
    | none =>
      rw [List.filterMap_cons_none hcall] at hquiet
      exact (ih (h.other hcall (hcontent hcall)) hrest hquiet).trans (hcontent hcall)
    | some request =>
      rw [List.filterMap_cons_some hcall] at hquiet
      obtain ⟨now, rfl⟩ := eq_use_of_call? hcall
      have hnot := hquiet request List.mem_cons_self
      have hopen : request ≠ .close := fun he => by simp [he, Writing.publishes] at hnot
      have hsame := h.contentAt?_use now request
      rw [hnot] at hsame
      obtain ⟨dirty', hnext⟩ := h.use now hopen
      exact (ih hnext hrest fun other ho => hquiet other (List.mem_cons_of_mem _ ho)).trans hsame

/-! ### Opening -/

/-- A handle that has been added on a file with the bytes of its buffer follows the buffer. -/
theorem follows_added {drive : Drive} {tree : Tree} {node : Node} (hnode : tree.get? (drive.keyOf path) = some node)
    (hfile : node.isDirectory = false) (hbytes : node.bytes = c.bytes) :
    Follows way drive.files.length path c false
      { drive with tree, files := drive.files ++ [way.handle (drive.keyOf path) c false] } := by
  refine ⟨List.getElem?_concat_length, ⟨node.bytes, ?_, fun _ => hbytes⟩, fun _ => rfl⟩
  exact contentAt?_eq_some_iff.mpr ⟨node, hnode, hfile, rfl⟩

/-- Where a file can be written, every way of opening it for writing succeeds, and the new handle follows the buffer
for what is in the file. -/
theorem follows_opened (way : Writing) (now : Int) (h : s.1.Writable (s.1.keyOf path)) :
    (∃ answer, ((perform now (way.request path)).outcome s).1 = .ok answer ∧
      (way.request path).handle? answer = some s.1.files.length) ∧
    Follows way s.1.files.length path (way.start ((s.1.contentAt? path).getD [])) false
      (act s (.ask now (way.request path))).1 := by
  obtain ⟨tree, node, hprepare, hnode, hfile, -, hbytes, -⟩ := prepareForWriting_of_writable now h
  rw [← hbytes]
  -- an update and an append start from the bytes that are there, an output that does not append from none
  cases way with
  | update mode hwrites =>
    have hopened : (openHandle now path mode.name).outcome s.1 = (.ok s.1.files.length, { s.1 with
        tree
        files := s.1.files ++ [(Writing.update mode hwrites).handle (s.1.keyOf path) ⟨node.bytes, 0⟩ false] }) := by
      rw [openHandle, HandleMode.parse_name, outcome_bind, outcome_ofExcept]
      simp only [hwrites, if_true]
      rw [openForUpdate, outcome_bind, hprepare]
      rfl
    rw [Writing.request, act, perform, outcome_plain, hopened]
    exact ⟨⟨_, rfl, rfl⟩, follows_added hnode hfile rfl⟩
  | output append =>
    rw [Writing.request, act, perform, outcome_plain]
    cases append with
    | false =>
      have hemptied : (s.1.tree.put (s.1.keyOf path) ⟨false, [], now, false⟩).get? (s.1.keyOf path) =
          some ⟨false, [], now, false⟩ := by rw [get?_put, if_pos rfl]
      rw [outcome_openOutput_of_writable now h]
      exact ⟨⟨_, rfl, rfl⟩, follows_added hemptied rfl rfl⟩
    | true =>
      have hopened : (openOutput now path true).outcome s.1 = (.ok s.1.files.length, { s.1 with
          tree
          files := s.1.files ++
            [(Writing.output true).handle (s.1.keyOf path) ⟨node.bytes, node.bytes.length⟩ false] }) := by
        rw [openOutput, outcome_bind, hprepare]
        rfl
      rw [hopened]
      exact ⟨⟨_, rfl, rfl⟩, follows_added hnode hfile rfl⟩

/-- **What is written through a handle.** A file that can be written is opened in any of the ways for writing, and the
handle is used by a run that does not close it, while nothing else changes the file. The buffer starts from what was in
the file, or from nothing where opening it has emptied it, and the requests of the run are made to it:

* closing the handle next leaves the buffer in the file;
* so does any other request that stores the buffer, with what it has made of it: flushing it, and in a synchronous mode
  writing and truncating;
* whatever follows, what is in the file stays there until such a request is made;
* for appending, a write goes to the end of the buffer whatever its position, and if nothing has been truncated, the
  buffer is what was in the file with the pieces that have been written behind it, in their order. -/
theorem contentAt?_written {index : Nat} {opened : Drive × TokenSource} {bytes : Bytes} (way : Writing) (now : Int)
    (hwritable : s.1.Writable (s.1.keyOf path)) (hbytes : (s.1.contentAt? path).getD [] = bytes)
    (hindex : s.1.files.length = index) (hopened : act s (.ask now (way.request path)) = opened) :
    (∃ answer, ((perform now (way.request path)).outcome s).1 = .ok answer ∧
      (way.request path).handle? answer = some index) ∧
    opened.1.contentAt? path = some (way.start bytes).bytes ∧
    ∀ {actions : List Action}, LeftAlone index path opened actions → .close ∉ calls index actions →
      (∀ now, (act (run opened actions) (.use now index .close)).1.contentAt? path =
        some (way.buffer bytes (calls index actions)).bytes) ∧
      (∀ now {request : StreamRequest}, way.publishes request = true →
        (act (run opened actions) (.use now index request)).1.contentAt? path =
          some (way.buffer bytes (calls index actions ++ [request])).bytes) ∧
      (∀ {later : List Action}, LeftAlone index path (run opened actions) later →
        (∀ request ∈ calls index later, way.publishes request = false) →
          (run opened (actions ++ later)).1.contentAt? path = (run opened actions).1.contentAt? path) ∧
      (way.appends = true →
        (∀ data, (way.buffer bytes (calls index actions ++ [.write data])).bytes =
          (way.buffer bytes (calls index actions)).bytes ++ data) ∧
        ((∀ size, .truncate size ∉ calls index actions) →
          (way.buffer bytes (calls index actions)).bytes =
            bytes ++ (Writing.pieces (calls index actions)).flatten)) := by
  subst hbytes hindex hopened
  obtain ⟨hanswer, hopened⟩ := follows_opened way now hwritable
  obtain ⟨stored, hstored, hclean⟩ := hopened.stored
  refine ⟨hanswer, by rw [hstored, hclean rfl], fun {actions} halone hopen => ?_⟩
  obtain ⟨dirty, hfollows⟩ := hopened.of_run halone hopen
  -- from here the handle follows its buffer, so each part reads the buffer off
  refine ⟨fun now => ?_, fun now {request} hpublishes => ?_, fun {later} hlater hquiet => ?_,
    fun happends => ⟨?_, ?_⟩⟩
  · exact hfollows.contentAt?_use now .close
  · rw [hfollows.contentAt?_use now request, if_pos hpublishes, Writing.buffer, List.foldl_concat]
  · rw [run_append]
    exact hfollows.contentAt?_run hlater hquiet
  · intro data
    rw [Writing.buffer, List.foldl_concat]
    exact Writing.bytes_next_of_appends happends _ data
  · intro hcut
    rw [Writing.buffer, Writing.bytes_foldl_of_appends happends hcut, Writing.bytes_start_of_appends happends]

/-- A drive with two bytes in a file. -/
def lettered : Drive × TokenSource :=
  run (.fresh "mem".toList 0, .counting [])
    [.ask 0 (.openOutput "mem:/a".toList false), .use 0 0 (.write [97, 98]), .use 0 0 .close]

/-- What opening that file leaves. -/
def reopened (way : Writing) : Drive × TokenSource := act lettered (.ask 1 (way.request "mem:/a".toList))

/-- Writing behind the end of the file, next to making another file. -/
def editing : List Action :=
  [.use 2 1 (.seek 3 0), .ask 3 (.createFile "mem:/b".toList), .use 4 1 (.write [99])]

/-- Through a handle that is not synchronous, the byte waits behind a gap until the handle is closed; through one that
is, it is there at once; and an output stream that appends puts it at the end. -/
theorem contentAt?_written_lettered :
    (run (reopened (.update .readWrite rfl)) editing).1.contentAt? "mem:/a".toList = some [97, 98] ∧
      (act (run (reopened (.update .readWrite rfl)) editing) (.use 5 1 .close)).1.contentAt? "mem:/a".toList =
        some [97, 98, 0, 99] ∧
      (run (reopened (.update .syncAll rfl)) editing).1.contentAt? "mem:/a".toList = some [97, 98, 0, 99] ∧
      (act (run (reopened (.output true)) editing) (.use 5 1 .close)).1.contentAt? "mem:/a".toList =
        some [97, 98, 99] := by
  have hwritable : lettered.1.Writable (lettered.1.keyOf "mem:/a".toList) := ⟨rfl, rfl⟩
  have hbytes : (lettered.1.contentAt? "mem:/a".toList).getD [] = [97, 98] := by decide
  have hindex : lettered.1.files.length = 1 := by decide
  have hopened : ∀ way : Writing, act lettered (.ask 1 (way.request "mem:/a".toList)) = reopened way := fun _ => rfl
  -- a request that publishes nothing, a close, a synchronous write, and a close after appending
  refine ⟨?_, ?_, ?_, ?_⟩
  · obtain ⟨-, hstart, hedit⟩ := contentAt?_written _ 1 hwritable hbytes hindex (hopened (.update .readWrite rfl))
    have hnothing : LeftAlone 1 "mem:/a".toList (reopened (.update .readWrite rfl)) [] := trivial
    have halone : LeftAlone 1 "mem:/a".toList (run (reopened (.update .readWrite rfl)) []) editing := by decide
    obtain ⟨-, -, hstays, -⟩ := hedit hnothing (by decide)
    exact (hstays halone (by decide)).trans hstart
  · obtain ⟨-, -, hedit⟩ := contentAt?_written _ 1 hwritable hbytes hindex (hopened (.update .readWrite rfl))
    have halone : LeftAlone 1 "mem:/a".toList (reopened (.update .readWrite rfl)) editing := by decide
    exact (hedit halone (by decide)).1 5
  · obtain ⟨-, -, hedit⟩ := contentAt?_written _ 1 hwritable hbytes hindex (hopened (.update .syncAll rfl))
    have halone : LeftAlone 1 "mem:/a".toList (reopened (.update .syncAll rfl)) (editing.take 2) := by decide
    have hpublishes : (Writing.update .syncAll rfl).publishes (.write [99]) = true := rfl
    exact (hedit halone (by decide)).2.1 4 hpublishes
  · obtain ⟨-, -, hedit⟩ := contentAt?_written _ 1 hwritable hbytes hindex (hopened (.output true))
    have halone : LeftAlone 1 "mem:/a".toList (reopened (.output true)) editing := by decide
    exact (hedit halone (by decide)).1 5

end Drive

end FileRouter
