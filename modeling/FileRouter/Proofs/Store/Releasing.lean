import FileRouter.Proofs.Call
import FileRouter.Store.Copy
import Mathlib.Tactic.SplitIfs
/-!
What a copy does to its streams.

A store can be watched (`watched`): it keeps a record of everything that it is asked, with what came of it, and does
the same otherwise. What a call adds to the record is put together like the call (`Records`), so the record of a copy
has the shape of the copy: some checks, the two openings, the transfer (`Transferring`), and the closings of what has
been opened. The transfer can stop at any of its reads and writes, and nothing follows the one that fails (`Orderly`).
Nothing is assumed about the providers and the streams.
-/

namespace FileRouter

/-- Something that a store has been asked, with what came of it: a request, or a request to a handle. -/
inductive Contact (η : Type) where
  | ask (request : Request) (answer : Except Failure (request.Reply η))
  | use (handle : η) (request : StreamRequest) (answer : Except Failure request.Reply)

namespace Contact

variable {η : Type}

/-- The failure that the contact ended with. -/
def failure? : Contact η → Option Failure
  | .ask _ (.error failure) | .use _ _ (.error failure) => some failure
  | _ => none

/-- The handle that has been opened. -/
def opened? : Contact η → Option η
  | .ask request (.ok answer) => request.handle? answer
  | _ => none

/-- The handle that has been opened for reading. -/
def input? : Contact η → Option η
  | .ask (.openInput _) (.ok handle) => some handle
  | _ => none

/-- The handle that has been opened for writing. -/
def output? : Contact η → Option η
  | .ask (.openOutput _ _) (.ok handle) => some handle
  | _ => none

/-- The handle that was to be closed. -/
def closed? : Contact η → Option η
  | .use handle .close _ => some handle
  | _ => none

/-- The chunk that has been read. -/
def taken? : Contact η → Option Bytes
  | .use _ (.read _) (.ok chunk) => some chunk
  | _ => none

/-- The chunk that was to be written. -/
def handed? : Contact η → Option Bytes
  | .use _ (.write chunk) _ => some chunk
  | _ => none

/-- The chunk that has been written. -/
def written? : Contact η → Option Bytes
  | .use _ (.write chunk) (.ok _) => some chunk
  | _ => none

/-- A contact that closes writes nothing. -/
theorem written?_of_closed? {contact : Contact η} {handle : η} (h : contact.closed? = some handle) :
    contact.written? = none := by
  cases contact with
  | ask => rfl
  | use handle request answer =>
    cases request with
    | close => rfl
    | _ => simp [closed?] at h

end Contact

namespace Store

open Call

variable {σ η : Type}

/-! ### A store that is watched -/

/-- The store with a record of its contacts. -/
def watched (store : Store σ η) : Store (σ × List (Contact η)) η where
  owner s path := store.owner s.1 path
  perform request := .ofOutcome fun s =>
    let (answer, t) := (store.perform request).outcome s.1
    (answer, t, s.2 ++ [.ask request answer])
  onHandle handle request := .ofOutcome fun s =>
    let (answer, t) := (store.onHandle handle request).outcome s.1
    (answer, t, s.2 ++ [.use handle request answer])

/-- A call on the watched store does what a call on the store does, and adds contacts to the record that have a
property together with the answer. -/
def Records {α : Type} (watching : Call (σ × List (Contact η)) α) (call : Call σ α)
    (P : List (Contact η) → Except Failure α → Prop) : Prop :=
  ∀ s record, ∃ contacts,
    watching.outcome (s, record) = ((call.outcome s).1, (call.outcome s).2, record ++ contacts) ∧
      P contacts (call.outcome s).1

section Records

variable {α β : Type} {watching : Call (σ × List (Contact η)) α} {call : Call σ α}
  {next' : α → Call (σ × List (Contact η)) β} {next : α → Call σ β}
  {P Q : List (Contact η) → Except Failure α → Prop} {R : List (Contact η) → Except Failure β → Prop}
  (store : Store σ η)

theorem records_pure {value : α} (h : P [] (.ok value)) :
    Records (pure value : Call (σ × List (Contact η)) α) (pure value) P :=
  fun s record => ⟨[], by rw [List.append_nil]; rfl, h⟩

theorem records_throw {failure : Failure} (h : P [] (.error failure)) :
    Records (throw failure : Call (σ × List (Contact η)) α) (throw failure) P :=
  fun s record => ⟨[], by rw [List.append_nil]; rfl, h⟩

theorem records_perform (request : Request) :
    Records (store.watched.perform request) (store.perform request)
      fun contacts answer => contacts = [.ask request answer] :=
  fun _ _ => ⟨_, rfl, rfl⟩

theorem records_onHandle (handle : η) (request : StreamRequest) :
    Records (store.watched.onHandle handle request) (store.onHandle handle request)
      fun contacts answer => contacts = [.use handle request answer] :=
  fun _ _ => ⟨_, rfl, rfl⟩

theorem Records.mono (h : Records watching call P) (hPQ : ∀ {contacts answer}, P contacts answer → Q contacts answer) :
    Records watching call Q := by
  intro s record
  obtain ⟨contacts, hout, hP⟩ := h s record
  exact ⟨contacts, hout, hPQ hP⟩

theorem Records.map (h : Records watching call P) (f : α → β) :
    Records (f <$> watching) (f <$> call) fun contacts answer => ∃ answer', P contacts answer' ∧ answer = answer'.map f := by
  intro s record
  obtain ⟨contacts, hout, hP⟩ := h s record
  exact ⟨contacts, by rw [outcome_map, outcome_map, hout], _, hP, by rw [outcome_map]⟩

/-- What follows a call adds its contacts behind those of the call, unless the call fails. -/
theorem Records.bind (h : Records watching call P)
    (hfails : ∀ {contacts failure}, P contacts (.error failure) → R contacts (.error failure))
    (hnext : ∀ {contacts value}, P contacts (.ok value) →
      Records (next' value) (next value) fun more answer => R (contacts ++ more) answer) :
    Records (watching >>= next') (call >>= next) R := by
  intro s record
  obtain ⟨contacts, hout, hP⟩ := h s record
  rw [outcome_bind, outcome_bind, hout]
  rcases hcall : call.outcome s with ⟨failure | value, t⟩
  · rw [hcall] at hP
    exact ⟨contacts, rfl, hfails hP⟩
  · rw [hcall] at hP
    obtain ⟨more, hmore, hR⟩ := hnext hP t (record ++ contacts)
    exact ⟨contacts ++ more, by rw [← List.append_assoc]; exact hmore, hR⟩

/-- What is done with the state may depend on it, but not on the record. -/
theorem records_get {next' : σ × List (Contact η) → Call (σ × List (Contact η)) β} {next : σ → Call σ β}
    (h : ∀ s record, Records (next' (s, record)) (next s) R) : Records (get >>= next') (get >>= next) R :=
  fun s record => h s record s record

end Records

/-- An answer after some more contacts: the failure of the last of them that fails counts more. -/
def overruled {α : Type} (answer : Except Failure α) (contacts : List (Contact η)) : Except Failure α :=
  contacts.foldl (fun answer contact => (contact.failure?.map Except.error).getD answer) answer

theorem overruled_of_quiet {α : Type} (answer : Except Failure α) {contacts : List (Contact η)}
    (h : ∀ contact ∈ contacts, contact.failure? = none) : overruled answer contacts = answer := by
  induction contacts with
  | nil => rfl
  | cons contact contacts ih =>
    rw [overruled, List.foldl_cons, h contact List.mem_cons_self]
    exact ih fun other ho => h other (List.mem_cons_of_mem _ ho)

/-- Using a handle and closing it adds the closing behind the contacts of the use, however that ends. -/
theorem Records.closing {α : Type} {store : Store σ η} {use' : Call (σ × List (Contact η)) α} {use : Call σ α}
    {P : List (Contact η) → Except Failure α → Prop} (h : Records use' use P) (handle : η) :
    Records (store.watched.closing handle use') (store.closing handle use) fun contacts answer =>
      ∃ used ended last, contacts = used ++ [.use handle .close last] ∧ P used ended ∧
        answer = overruled ended [.use handle .close last] := by
  intro s record
  obtain ⟨used, hout, hP⟩ := h s record
  obtain ⟨closes, hclose, rfl⟩ := records_onHandle store handle .close (use.outcome s).2 (record ++ used)
  refine ⟨_, ?_, used, (use.outcome s).1, ((store.close handle).outcome (use.outcome s).2).1, rfl, hP, ?_⟩
  · rw [Store.closing, Store.closing, outcome_ensuring, outcome_ensuring, hout]
    simp only [Store.close, hclose]
    rcases (store.onHandle handle .close).outcome (use.outcome s).2 with ⟨_ | _, _⟩ <;> simp
  · rw [Store.closing, outcome_ensuring]
    rcases (store.close handle).outcome (use.outcome s).2 with ⟨_ | _, _⟩ <;> rfl

/-! ### The transfer -/

/-- What can happen while a source is carried over to a sink, with the number of chunks that are allowed: the contacts,
and the answer. -/
inductive Transferring (source sink : η) (chunkSize : Int) :
    Nat → List (Contact η) → Except Failure Nat → Prop
  | outOfChunks : Transferring source sink chunkSize 0 [] (.error .endless)
  | notRead {n : Nat} {failure : Failure} :
      Transferring source sink chunkSize (n + 1) [.use source (.read (some chunkSize)) (.error failure)]
        (.error failure)
  | exhausted {n : Nat} :
      Transferring source sink chunkSize (n + 1) [.use source (.read (some chunkSize)) (.ok [])] (.ok 0)
  | notWritten {n : Nat} {chunk : Bytes} {failure : Failure} : chunk ≠ [] →
      Transferring source sink chunkSize (n + 1)
        [.use source (.read (some chunkSize)) (.ok chunk), .use sink (.write chunk) (.error failure)] (.error failure)
  | carried {n written : Nat} {chunk : Bytes} {contacts : List (Contact η)} {answer : Except Failure Nat} :
      chunk ≠ [] → Transferring source sink chunkSize n contacts answer →
      Transferring source sink chunkSize (n + 1)
        (.use source (.read (some chunkSize)) (.ok chunk) :: .use sink (.write chunk) (.ok written) :: contacts)
        (answer.map (chunk.length + ·))

theorem records_copyStream (store : Store σ η) (source sink : η) (chunkSize : Int) (chunks : Nat) :
    Records
      (copyStream (store.watched.read source (some chunkSize)) (fun data => discard (store.watched.write sink data)) chunks)
      (copyStream (store.read source (some chunkSize)) (fun data => discard (store.write sink data)) chunks)
      (Transferring source sink chunkSize chunks) := by
  induction chunks with
  | zero => exact records_throw .outOfChunks
  | succ chunks ih =>
    -- one round: a read, then a write of what has been read, and each of them can fail
    refine (records_onHandle store source (.read (some chunkSize))).bind ?_ fun {contacts chunk} hread => ?_
    · rintro contacts failure rfl
      exact .notRead
    · subst hread
      by_cases hchunk : chunk = []
      · subst hchunk
        exact records_pure .exhausted
      · have hfull : chunk.isEmpty = false := by simpa using hchunk
        simp only [hfull, Bool.false_eq_true, if_false]
        refine ((records_onHandle store sink (.write chunk)).map fun _ => ()).bind ?_ fun {contacts _} hwrite => ?_
        · rintro contacts failure ⟨answer, rfl, hanswer⟩
          cases answer with
          | error other =>
            obtain rfl := Except.error.inj hanswer
            exact .notWritten hchunk
          | ok written => simp [Except.map] at hanswer
        · obtain ⟨answer, rfl, hanswer⟩ := hwrite
          obtain ⟨written, rfl, -⟩ := exists_of_map_eq_ok hanswer.symm
          refine (ih.map (chunk.length + ·)).mono ?_
          rintro contacts answer ⟨answer', hrest, rfl⟩
          exact .carried hchunk hrest

/-! ### An orderly record -/

/-- Nothing follows a contact that has failed, and its failure is what the contacts end with. -/
def Stops {α : Type} (contacts : List (Contact η)) (ended : Except Failure α) : Prop :=
  ∀ before contact after failure, contacts = before ++ contact :: after → contact.failure? = some failure →
    after = [] ∧ ended = .error failure

/-- How a copy uses streams until it closes them, with the number of chunks that are allowed. -/
structure Orderly (chunks : Nat) (chunkSize : Int) (contacts : List (Contact η)) (ended : Except Failure Nat) : Prop where
  /-- Nothing is opened but inputs, and outputs after them. -/
  opened : contacts.filterMap Contact.opened? =
    contacts.filterMap Contact.input? ++ contacts.filterMap Contact.output?
  /-- All that is done to an input that has been opened is reading, and all that is done to an output is writing. -/
  used : ∀ handle request answer, .use handle request answer ∈ contacts →
    handle ∈ contacts.filterMap Contact.input? ∧ request = .read (some chunkSize) ∨
      handle ∈ contacts.filterMap Contact.output? ∧ ∃ chunk, request = .write chunk
  stops : Stops contacts ended
  /-- Just the chunks that have been read are handed over, but none that is empty. -/
  handed : contacts.filterMap Contact.handed? = (contacts.filterMap Contact.taken?).filter (· ≠ [])
  /-- It ends well only with the first chunk that is empty, and tells the number of bytes. -/
  complete : ∀ n, ended = .ok n → n = (contacts.filterMap Contact.handed?).flatten.length ∧
    ∃ front source, contacts = front ++ [.use source (.read (some chunkSize)) (.ok [])] ∧
      [] ∉ front.filterMap Contact.taken?
  /-- It ends with a failure only if the last contact has failed, or nothing has been opened, or as many chunks have been
  written as are allowed. -/
  raised : ∀ failure, ended = .error failure →
    (∃ front last, contacts = front ++ [last] ∧ last.failure? = some failure) ∨
      contacts.filterMap Contact.opened? = [] ∨
      failure = .endless ∧ (contacts.filterMap Contact.written?).length = chunks

section Orderly

variable {α β : Type} {contact : Contact η} {first rest contacts : List (Contact η)} {ended : Except Failure α}
  {source sink : η} {chunkSize : Int} {chunks : Nat} {answer : Except Failure Nat}

theorem stops_nil (ended : Except Failure α) : Stops ([] : List (Contact η)) ended := by
  intro before contact after failure hsplit
  simp at hsplit

theorem stops_cons (hcontact : contact.failure? = none) (h : Stops rest ended) : Stops (contact :: rest) ended := by
  rintro (_ | ⟨_, before⟩) other after failure hsplit hfailure
  · obtain ⟨rfl, -⟩ := List.cons.inj hsplit
    simp [hcontact] at hfailure
  · exact h before other after failure (List.cons.inj hsplit).2 hfailure

theorem stops_singleton (h : ∀ failure, contact.failure? = some failure → ended = .error failure) :
    Stops [contact] ended := by
  rintro (_ | ⟨_, before⟩) other after failure hsplit hfailure
  · obtain ⟨rfl, rfl⟩ := List.cons.inj hsplit
    exact ⟨rfl, h failure hfailure⟩
  · simp at hsplit

/-- Contacts that end well have not failed. -/
theorem Stops.failure?_eq_none {value : α} (h : Stops contacts (.ok value)) (hm : contact ∈ contacts) :
    contact.failure? = none := by
  obtain ⟨before, after, hsplit⟩ := List.append_of_mem hm
  cases hfailure : contact.failure? with
  | none => rfl
  | some failure => simpa using (h before contact after failure hsplit hfailure).2

theorem Stops.append {value : α} {ended : Except Failure β} (h : Stops first (.ok value)) (hrest : Stops rest ended) :
    Stops (first ++ rest) ended := by
  have hquiet : ∀ contact ∈ first, contact.failure? = none := fun contact => h.failure?_eq_none
  -- the induction needs only that nothing has failed, not what the first contacts end with
  clear h
  induction first with
  | nil => exact hrest
  | cons contact first ih =>
    exact stops_cons (hquiet contact List.mem_cons_self) (ih fun other ho => hquiet other (List.mem_cons_of_mem _ ho))

theorem Stops.of_error {failure : Failure} (h : Stops contacts (.error failure : Except Failure α)) :
    Stops contacts (.error failure : Except Failure β) := by
  intro before contact after other hsplit hother
  obtain ⟨hlast, hsame⟩ := h before contact after other hsplit hother
  exact ⟨hlast, congrArg Except.error (Except.error.inj hsame)⟩

namespace Transferring

theorem used (h : Transferring source sink chunkSize chunks contacts answer) (hm : contact ∈ contacts) :
    (∃ result, contact = .use source (.read (some chunkSize)) result) ∨
      ∃ chunk result, contact = .use sink (.write chunk) result := by
  induction h with
  | outOfChunks => simp at hm
  | notRead | exhausted => exact Or.inl ⟨_, List.mem_singleton.mp hm⟩
  | notWritten =>
    rcases List.mem_cons.mp hm with rfl | hm
    · exact Or.inl ⟨_, rfl⟩
    · exact Or.inr ⟨_, _, List.mem_singleton.mp hm⟩
  | carried _ _ ih =>
    rcases List.mem_cons.mp hm with rfl | hm
    · exact Or.inl ⟨_, rfl⟩
    · rcases List.mem_cons.mp hm with rfl | hm
      · exact Or.inr ⟨_, _, rfl⟩
      · exact ih hm

theorem filterMap_eq_nil (h : Transferring source sink chunkSize chunks contacts answer) {f : Contact η → Option η}
    (hf : ∀ handle request result, f (.use handle request result) = none) : contacts.filterMap f = [] := by
  refine List.filterMap_eq_nil_iff.mpr fun contact hm => ?_
  obtain ⟨_, rfl⟩ | ⟨_, _, rfl⟩ := h.used hm <;> exact hf _ _ _

theorem stops (h : Transferring source sink chunkSize chunks contacts answer) : Stops contacts answer := by
  induction h with
  | outOfChunks => exact stops_nil _
  | notRead => exact stops_singleton fun failure hf => congrArg Except.error (Option.some.inj hf)
  | exhausted => exact stops_singleton fun failure hf => by simp [Contact.failure?] at hf
  | notWritten => exact stops_cons rfl (stops_singleton fun failure hf => congrArg Except.error (Option.some.inj hf))
  | carried _ _ ih =>
    refine stops_cons rfl (stops_cons rfl fun before contact after failure hsplit hfailure => ?_)
    obtain ⟨hlast, rfl⟩ := ih before contact after failure hsplit hfailure
    exact ⟨hlast, rfl⟩

theorem handed (h : Transferring source sink chunkSize chunks contacts answer) :
    contacts.filterMap Contact.handed? = (contacts.filterMap Contact.taken?).filter (· ≠ []) := by
  induction h with
  | outOfChunks | notRead | exhausted => rfl
  | @notWritten _ chunk _ hchunk =>
    show [chunk] = [chunk].filter (· ≠ [])
    simp [hchunk]
  | @carried _ _ chunk contacts _ hchunk _ ih =>
    show chunk :: contacts.filterMap Contact.handed? = (chunk :: contacts.filterMap Contact.taken?).filter (· ≠ [])
    rw [List.filter_cons_of_pos (by simpa using hchunk), ih]

theorem complete (h : Transferring source sink chunkSize chunks contacts answer) {n : Nat} (hanswer : answer = .ok n) :
    n = (contacts.filterMap Contact.handed?).flatten.length ∧
      ∃ front, contacts = front ++ [.use source (.read (some chunkSize)) (.ok [])] ∧
        [] ∉ front.filterMap Contact.taken? := by
  induction h generalizing n with
  | outOfChunks | notRead | notWritten => simp at hanswer
  | exhausted => exact ⟨(Except.ok.inj hanswer).symm, [], rfl, by simp⟩
  | @carried _ _ chunk contacts _ hchunk _ ih =>
    obtain ⟨m, rfl, rfl⟩ := exists_of_map_eq_ok hanswer
    obtain ⟨hm, front, rfl, hfront⟩ := ih rfl
    refine ⟨?_, _ :: _ :: front, rfl, ?_⟩
    · show chunk.length + m = (chunk :: List.filterMap Contact.handed? _).flatten.length
      rw [List.flatten_cons, List.length_append, hm]
    · show [] ∉ chunk :: front.filterMap Contact.taken?
      exact fun hmem => (List.mem_cons.mp hmem).elim (fun he => hchunk he.symm) hfront

theorem raised (h : Transferring source sink chunkSize chunks contacts answer) {failure : Failure}
    (hanswer : answer = .error failure) :
    (∃ front last, contacts = front ++ [last] ∧ last.failure? = some failure) ∨
      failure = .endless ∧ (contacts.filterMap Contact.written?).length = chunks := by
  induction h with
  | outOfChunks => exact Or.inr ⟨(Except.error.inj hanswer).symm, rfl⟩
  | notRead => exact Or.inl ⟨[], _, rfl, congrArg some (Except.error.inj hanswer)⟩
  | exhausted => simp at hanswer
  | notWritten => exact Or.inl ⟨[_], _, rfl, congrArg some (Except.error.inj hanswer)⟩
  | @carried _ _ _ _ answer _ _ ih =>
    cases answer with
    | ok n => simp [Except.map] at hanswer
    | error other =>
      obtain rfl := Except.error.inj hanswer
      -- a round has one chunk written
      exact (ih rfl).imp (fun ⟨front, last, hlast, hfailure⟩ => ⟨_ :: _ :: front, last, by rw [hlast]; rfl, hfailure⟩)
        fun ⟨hendless, hwritten⟩ => ⟨hendless, congrArg (· + 1) hwritten⟩

end Transferring

/-! ### The whole copy -/

/-- A contact that only asks for a canonical path. -/
def IsCheck (contact : Contact η) : Prop :=
  ∃ path answer, contact = .ask (.canonicalPath path) answer

/-- The check of the paths asks for canonical paths, until one of the requests fails. -/
theorem records_checkDistinct (store : Store σ η) (path target : Text) :
    Records (store.watched.checkDistinct path target) (store.checkDistinct path target) fun contacts answer =>
      (∀ contact ∈ contacts, IsCheck contact) ∧ Stops contacts answer := by
  have hask : ∀ path, Records (store.watched.canonicalPath path) (store.canonicalPath path) fun contacts answer =>
      (∀ contact ∈ contacts, IsCheck contact) ∧ Stops contacts answer := by
    refine fun path => (records_perform store (.canonicalPath path)).mono ?_
    rintro contacts answer rfl
    refine ⟨fun contact hm => ⟨path, answer, List.mem_singleton.mp hm⟩, stops_singleton fun failure hfailure => ?_⟩
    cases answer with
    | error other => exact congrArg Except.error (Option.some.inj hfailure)
    | ok canonical => simp [Contact.failure?] at hfailure
  refine records_get fun s record => ?_
  have howner : ∀ path, store.watched.owner (s, record) path = store.owner s path := fun _ => rfl
  rw [howner, howner]
  split_ifs
  · -- one owner for both paths: both canonical paths are asked for, and compared
    refine (hask path).bind (fun h => ⟨h.1, h.2.of_error⟩) fun {contacts canonical} hfirst => ?_
    have hall : ∀ {more : List (Contact η)}, (∀ contact ∈ more, IsCheck contact) →
        ∀ contact ∈ contacts ++ more, IsCheck contact := fun hmore contact hm =>
      (List.mem_append.mp hm).elim (hfirst.1 contact) (hmore contact)
    refine (hask target).bind (fun h => ⟨hall h.1, hfirst.2.append h.2.of_error⟩) fun {more other} hsecond => ?_
    split_ifs
    · exact records_throw ⟨hall (by simpa using hsecond.1), hfirst.2.append (hsecond.2.append (stops_nil _))⟩
    · exact records_pure ⟨hall (by simpa using hsecond.1), hfirst.2.append (hsecond.2.append (stops_nil _))⟩
  · exact records_pure ⟨by simp, stops_nil _⟩

theorem filterMap_checks {γ : Type} {f : Contact η → Option γ} {checks : List (Contact η)}
    (hf : ∀ path answer, f (.ask (.canonicalPath path) answer) = none) (h : ∀ contact ∈ checks, IsCheck contact) :
    checks.filterMap f = [] := by
  refine List.filterMap_eq_nil_iff.mpr fun contact hm => ?_
  obtain ⟨path, answer, rfl⟩ := h contact hm
  exact hf path answer

/-- Checks alone use no stream. -/
theorem orderly_checks {checks : List (Contact η)} {failure : Failure} (h : ∀ contact ∈ checks, IsCheck contact)
    (hstops : Stops checks (.error failure : Except Failure Unit)) : Orderly chunks chunkSize checks (.error failure) where
  opened := by
    rw [filterMap_checks _ h, filterMap_checks _ h, filterMap_checks _ h]
    · rfl
    all_goals exact fun _ answer => by cases answer <;> rfl
  used handle request answer hm := by
    obtain ⟨path, result, hcheck⟩ := h _ hm
    cases hcheck
  stops := hstops.of_error
  handed := by
    rw [filterMap_checks _ h, filterMap_checks _ h]
    · rfl
    all_goals exact fun _ _ => rfl
  complete n hn := by simp at hn
  raised _ _ := Or.inr (Or.inl (filterMap_checks (fun _ answer => by cases answer <;> rfl) h))

/-- Checks in front make no difference. -/
theorem Orderly.after_checks {checks : List (Contact η)} {ended : Except Failure Nat}
    (h : Orderly chunks chunkSize contacts ended) (hchecks : ∀ contact ∈ checks, IsCheck contact)
    (hstops : Stops checks (.ok ())) : Orderly chunks chunkSize (checks ++ contacts) ended := by
  -- A check opens, takes and writes nothing, so every reading of the contacts passes over the checks.
  have hblank : ∀ {γ : Type} (f : Contact η → Option γ), (∀ path answer, f (.ask (.canonicalPath path) answer) = none) →
      (checks ++ contacts).filterMap f = contacts.filterMap f := fun f hf => by
    rw [List.filterMap_append, filterMap_checks hf hchecks, List.nil_append]
  have hopened := hblank Contact.opened? fun _ answer => by cases answer <;> rfl
  have hinput := hblank Contact.input? fun _ _ => rfl
  have houtput := hblank Contact.output? fun _ _ => rfl
  have htaken := hblank Contact.taken? fun _ _ => rfl
  have hhanded := hblank Contact.handed? fun _ _ => rfl
  have hwritten := hblank Contact.written? fun _ _ => rfl
  refine ⟨by rw [hopened, hinput, houtput, h.opened], fun handle request answer hm => ?_, hstops.append h.stops,
    by rw [htaken, hhanded, h.handed], fun n hn => ?_, fun failure hfailure => ?_⟩
  · rw [hinput, houtput]
    rcases List.mem_append.mp hm with hm | hm
    · obtain ⟨path, result, hcheck⟩ := hchecks _ hm
      cases hcheck
    · exact h.used handle request answer hm
  · obtain ⟨hlength, front, source, rfl, hfront⟩ := h.complete n hn
    refine ⟨by rw [hhanded, hlength], checks ++ front, source, by rw [List.append_assoc], ?_⟩
    rwa [List.filterMap_append, filterMap_checks (fun _ _ => rfl) hchecks, List.nil_append]
  · rw [hopened, hwritten]
    -- the failure of the last contact stays the last one; the endless alternative speaks of the writes only
    refine (h.raised failure hfailure).imp_left fun ⟨front, last, hlast, hfailed⟩ => ?_
    exact ⟨checks ++ front, last, by rw [hlast, List.append_assoc], hfailed⟩

/-- A transfer between two streams that have just been opened is orderly. -/
theorem Transferring.orderly (h : Transferring source sink chunkSize chunks contacts answer) (path target : Text) :
    Orderly chunks chunkSize
      (.ask (.openInput path) (.ok source) :: .ask (.openOutput target false) (.ok sink) :: contacts) answer := by
  -- the loop itself opens nothing, so the two handles are those of the two contacts in front
  have hinput : (Contact.ask (.openInput path) (.ok source) :: .ask (.openOutput target false) (.ok sink) ::
      contacts).filterMap Contact.input? = [source] := congrArg (source :: ·) (h.filterMap_eq_nil fun _ _ _ => rfl)
  have houtput : (Contact.ask (.openInput path) (.ok source) :: .ask (.openOutput target false) (.ok sink) ::
      contacts).filterMap Contact.output? = [sink] := congrArg (sink :: ·) (h.filterMap_eq_nil fun _ _ _ => rfl)
  refine ⟨?_, fun handle request result hm => ?_, stops_cons rfl (stops_cons rfl h.stops), h.handed, fun n hn => ?_,
    fun failure hfailure => ?_⟩
  · rw [hinput, houtput]
    exact congrArg (source :: sink :: ·) (h.filterMap_eq_nil fun _ _ _ => rfl)
  · rw [hinput, houtput]
    obtain ⟨other, hother⟩ | ⟨chunk, other, hother⟩ := h.used (by simpa using hm)
    · injection hother with hhandle hrequest
      exact Or.inl ⟨by simp [hhandle], hrequest⟩
    · injection hother with hhandle hrequest
      exact Or.inr ⟨by simp [hhandle], chunk, hrequest⟩
  · -- the last read of the loop is the one that got nothing, and the contacts in front got no chunk
    obtain ⟨hlength, front, hfront, hfull⟩ := h.complete hn
    exact ⟨hlength, .ask (.openInput path) (.ok source) :: .ask (.openOutput target false) (.ok sink) :: front, source,
      by rw [hfront]; rfl, hfull⟩
  · refine (h.raised hfailure).imp (fun ⟨front, last, hlast, hfailed⟩ => ?_) Or.inr
    exact ⟨_ :: _ :: front, last, by rw [hlast]; rfl, hfailed⟩

/-- What a copy adds to the record: an orderly use of streams, and the closing of each of them, the last one that has
been opened first. -/
def Released (chunks : Nat) (chunkSize : Int) (contacts : List (Contact η)) (answer : Except Failure Nat) : Prop :=
  ∃ moves closes ended, contacts = moves ++ closes ∧ answer = overruled ended closes ∧ Orderly chunks chunkSize moves ended ∧
    closes.map Contact.closed? = (moves.filterMap Contact.opened?).reverse.map some

theorem released_of_unopened (h : Orderly chunks chunkSize contacts answer)
    (hopened : contacts.filterMap Contact.opened? = []) : Released chunks chunkSize contacts answer :=
  ⟨contacts, [], answer, (List.append_nil contacts).symm, rfl, h, by rw [hopened]; rfl⟩

/-- A source that cannot be opened is not used. -/
theorem orderly_unopened (path : Text) (failure : Failure) :
    Orderly chunks chunkSize [(.ask (.openInput path) (.error failure) : Contact η)] (.error failure) where
  opened := rfl
  used handle request answer hm := by simp at hm
  stops := stops_singleton fun other hother => congrArg Except.error (Option.some.inj hother)
  handed := rfl
  complete n hn := by simp at hn
  raised _ hfailure := Or.inl ⟨[], _, rfl, congrArg some (Except.error.inj hfailure)⟩

/-- If the output cannot be opened, nothing is read. -/
theorem orderly_half (path target : Text) (source : η) (failure : Failure) :
    Orderly chunks chunkSize [(.ask (.openInput path) (.ok source) : Contact η), .ask (.openOutput target false) (.error failure)]
      (.error failure) where
  opened := rfl
  used handle request answer hm := by simp at hm
  stops := stops_cons rfl (stops_singleton fun other hother => congrArg Except.error (Option.some.inj hother))
  handed := rfl
  complete n hn := by simp at hn
  raised _ hfailure := Or.inl ⟨[_], _, rfl, congrArg some (Except.error.inj hfailure)⟩

/-- With a source that is open, the output is opened, and closed after the transfer; or it cannot be opened. -/
theorem records_output (store : Store σ η) (source : η) (path target : Text) (chunkSize : Int) (chunks : Nat) :
    Records
      (do
        let sink ← store.watched.openOutput target false
        store.watched.closing sink
          (copyStream (store.watched.read source (some chunkSize))
            (fun data => discard (store.watched.write sink data)) chunks))
      (do
        let sink ← store.openOutput target false
        store.closing sink
          (copyStream (store.read source (some chunkSize)) (fun data => discard (store.write sink data)) chunks))
      fun contacts answer => ∃ moves closes ended, contacts = moves ++ closes ∧ answer = overruled ended closes ∧
        Orderly chunks chunkSize (.ask (.openInput path) (.ok source) :: moves) ended ∧
        closes.map Contact.closed? = (moves.filterMap Contact.opened?).reverse.map some := by
  refine (records_perform store (.openOutput target false)).bind ?_ fun {opening sink} hopen => ?_
  · rintro opening failure rfl
    exact ⟨_, [], .error failure, (List.append_nil _).symm, rfl, orderly_half path target source failure, rfl⟩
  subst hopen
  refine ((records_copyStream store source sink chunkSize chunks).closing sink).mono ?_
  rintro contacts answer ⟨moves, ended, last, rfl, hmoves, rfl⟩
  refine ⟨.ask (.openOutput target false) (.ok sink) :: moves, _, ended, rfl, rfl, hmoves.orderly path target, ?_⟩
  show [some sink] = (sink :: moves.filterMap Contact.opened?).reverse.map some
  rw [hmoves.filterMap_eq_nil fun _ _ _ => rfl]
  rfl

theorem records_copy (store : Store σ η) (chunks : Nat) (path target : Text) (chunkSize : Int) :
    Records (store.watched.copy chunks path target chunkSize) (store.copy chunks path target chunkSize)
      (Released chunks chunkSize) := by
  refine (records_checkDistinct store path target).bind ?_ fun {checks _} hcheck => ?_
  · rintro checks failure ⟨hchecks, hstops⟩
    refine released_of_unopened (orderly_checks hchecks hstops) (filterMap_checks (fun _ answer => ?_) hchecks)
    cases answer <;> rfl
  obtain ⟨hchecks, hstops⟩ := hcheck
  refine (records_perform store (.openInput path)).bind ?_ fun {opening source} hopen => ?_
  · rintro opening failure rfl
    refine released_of_unopened ((orderly_unopened path failure).after_checks hchecks hstops) ?_
    rw [List.filterMap_append, filterMap_checks (fun _ answer => by cases answer <;> rfl) hchecks]
    rfl
  subst hopen
  -- what is done with the output is closed within, so its closing comes before that of the source
  refine ((records_output store source path target chunkSize chunks).closing source).mono ?_
  rintro contacts answer ⟨used, ended, last, rfl, hused, rfl⟩
  obtain ⟨moves, closes, ended, rfl, rfl, horderly, hclosed⟩ := hused
  refine ⟨checks ++ (.ask (.openInput path) (.ok source) :: moves), closes ++ [.use source .close last], ended, ?_, ?_,
    horderly.after_checks hchecks hstops, ?_⟩
  · simp
  · rw [overruled, overruled, overruled, List.foldl_append]
  · rw [List.filterMap_append, filterMap_checks (fun _ answer => by cases answer <;> rfl) hchecks, List.map_append,
      hclosed]
    show _ = (source :: moves.filterMap Contact.opened?).reverse.map some
    rw [List.reverse_cons, List.map_append]
    rfl

/-! ### The number of chunks that is allowed -/

/-- How many chunks have been written, by the record. -/
def writtenIn (s : σ × List (Contact η)) : Nat := (s.2.filterMap Contact.written?).length

/-- From a state, a call goes as it would with more chunks, unless the chunks that have been written come to a
total. -/
def Settles (call : Nat → Call (σ × List (Contact η)) α) (n total : Nat) (s : σ × List (Contact η)) : Prop :=
  (∀ more ≥ n, (call more).outcome s = (call n).outcome s) ∨ writtenIn ((call n).outcome s).2 = total

variable {n total : Nat} {s : σ × List (Contact η)}

theorem settles_const (call : Call (σ × List (Contact η)) α) : Settles (fun _ => call) n total s :=
  Or.inl fun _ _ => rfl

/-- What comes before does not depend on the number of chunks. -/
theorem settles_after {before : Call (σ × List (Contact η)) β} {call : β → Nat → Call (σ × List (Contact η)) α}
    (h : ∀ value t, before.outcome s = (.ok value, t) → Settles (call value) n total t) :
    Settles (fun more => before >>= fun value => call value more) n total s := by
  rw [Settles]
  simp only [outcome_bind]
  rcases hb : before.outcome s with ⟨failure | value, t⟩
  · exact Or.inl fun _ _ => rfl
  · exact h value t hb

theorem Settles.map {call : Nat → Call (σ × List (Contact η)) α} (h : Settles call n total s) (f : α → β) :
    Settles (fun more => f <$> call more) n total s := by
  rw [Settles]
  simp only [outcome_map]
  exact h.imp_left fun hsame more hmore => by rw [hsame more hmore]

theorem Settles.ensuring {call : Nat → Call (σ × List (Contact η)) α} {last : Call (σ × List (Contact η)) Unit}
    (h : Settles call n total s) (hlast : Spares writtenIn last) :
    Settles (fun more => ensuring (call more) last) n total s := by
  rcases h with hsame | htotal
  · exact Or.inl fun more hmore => by rw [outcome_ensuring, outcome_ensuring, hsame more hmore]
  · exact Or.inr (by rw [outcome_ensuring_snd, hlast, htotal])

theorem spares_writtenIn {α : Type} {watching : Call (σ × List (Contact η)) α} {call : Call σ α}
    {P : List (Contact η) → Except Failure α → Prop} (h : Records watching call P)
    (hP : ∀ {contacts answer}, P contacts answer → contacts.filterMap Contact.written? = []) :
    Spares writtenIn watching := by
  intro s
  obtain ⟨contacts, hout, hcontacts⟩ := h s.1 s.2
  rw [hout, writtenIn, List.filterMap_append, hP hcontacts, List.append_nil]
  rfl

theorem writtenIn_write (store : Store σ η) {sink : η} {chunk : Bytes} {t u : σ × List (Contact η)}
    (h : (discard (store.watched.write sink chunk)).outcome t = (.ok (), u)) : writtenIn u = writtenIn t + 1 := by
  obtain ⟨contacts, hout, rfl⟩ := records_onHandle store sink (.write chunk) t.1 t.2
  rw [outcome_discard, Store.write, hout, Prod.mk.injEq] at h
  obtain ⟨hanswer, rfl⟩ := h
  obtain ⟨written, hwritten, -⟩ := exists_of_map_eq_ok hanswer
  rw [writtenIn, List.filterMap_append, List.length_append, hwritten]
  rfl

/-- The loop goes as it would with more chunks, unless it has written as many as are allowed. -/
theorem settles_copyStream (store : Store σ η) (source sink : η) (chunkSize : Int) (n : Nat)
    (s : σ × List (Contact η)) :
    Settles (copyStream (store.watched.read source (some chunkSize))
      (fun data => discard (store.watched.write sink data))) n (writtenIn s + n) s := by
  induction n generalizing s with
  | zero => exact Or.inr rfl
  | succ n ih =>
    have hstep : Settles (fun more => copyStream (store.watched.read source (some chunkSize))
        (fun data => discard (store.watched.write sink data)) (more + 1)) n (writtenIn s + (n + 1)) s := by
      refine settles_after fun chunk t hread => ?_
      split_ifs
      · exact settles_const _
      · -- a round writes one chunk, so the rest is allowed one less and has one more behind it
        refine settles_after fun _ u hwrite => ?_
        have hspared : writtenIn t = writtenIn s :=
          (spares_writtenIn (records_onHandle store source (.read (some chunkSize)))
            (by rintro contacts (_ | _) rfl <;> rfl)).view_eq hread
        have htotal : writtenIn u + n = writtenIn s + (n + 1) := by
          rw [writtenIn_write store hwrite, hspared, Nat.add_right_comm, Nat.add_assoc]
        exact htotal ▸ (ih u).map (chunk.length + ·)
    refine hstep.imp_left fun hsame more hmore => ?_
    obtain ⟨k, rfl⟩ := Nat.exists_eq_add_of_le hmore
    rw [Nat.add_right_comm]
    exact hsame (n + k) (Nat.le_add_right n k)

/-- A copy goes as it would with more chunks, unless it has written as many as are allowed. -/
theorem settles_copy (store : Store σ η) (n : Nat) (path target : Text) (chunkSize : Int) (s : σ × List (Contact η)) :
    Settles (fun more => store.watched.copy more path target chunkSize) n (writtenIn s + n) s := by
  have hcheck := spares_writtenIn (records_checkDistinct store path target) fun {contacts answer} h =>
    filterMap_checks (fun _ _ => rfl) h.1
  have hask : ∀ request, Spares writtenIn (store.watched.perform request) := fun request =>
    spares_writtenIn (records_perform store request) (by rintro contacts answer rfl; rfl)
  have hclose : ∀ handle, Spares writtenIn (store.watched.close handle) := fun handle =>
    spares_writtenIn (records_onHandle store handle .close) (by rintro contacts answer rfl; rfl)
  refine settles_after fun _ t hchecked => settles_after fun source u hopened => ?_
  refine (settles_after fun sink v hopened' => ?_ : Settles _ _ _ _).ensuring (hclose source)
  refine Settles.ensuring ?_ (hclose sink)
  -- nothing has been written before the loop begins, neither by the check nor by opening
  have htotal : writtenIn v = writtenIn s :=
    ((hask _).view_eq hopened').trans (((hask _).view_eq hopened).trans (hcheck.view_eq hchecked))
  exact htotal ▸ settles_copyStream store source sink chunkSize n v

/-- **A copy releases what it opens.** Over any providers and streams, and however many chunks are allowed, the record of
a copy that is watched, which otherwise does the same, has two parts:

* an orderly use of streams. A contact that fails is the last one here, and its failure is what the use ends with. The
  chunks that are read are handed over as they are, up to that failure, or up to the first that is empty;
* one closing for each stream that has been opened, whatever the use has ended with: the output is closed first, then
  the input. The copy answers what the use has ended with, unless a closing fails.

More chunks would make no difference, unless as many as are allowed have been written. -/
theorem released_copy (store : Store σ η) (chunks : Nat) (path target : Text) (chunkSize : Int) (s : σ) :
    ∃ contacts closes ended t,
      (store.copy chunks path target chunkSize).outcome s = (overruled ended closes, t) ∧
      (store.watched.copy chunks path target chunkSize).outcome (s, []) =
        (overruled ended closes, t, contacts ++ closes) ∧
      Orderly chunks chunkSize contacts ended ∧
      closes.map Contact.closed? = (contacts.filterMap Contact.opened?).reverse.map some ∧
      ((∀ contact ∈ closes, contact.failure? = none) → overruled ended closes = ended) ∧
      ((∀ more ≥ chunks, (store.watched.copy more path target chunkSize).outcome (s, []) =
          (overruled ended closes, t, contacts ++ closes)) ∨
        (contacts.filterMap Contact.written?).length = chunks) := by
  obtain ⟨record, hout, contacts, closes, ended, rfl, hanswer, horderly, hclosed⟩ :=
    records_copy store chunks path target chunkSize s []
  rw [List.nil_append, hanswer] at hout
  refine ⟨contacts, closes, ended, _, Prod.ext hanswer rfl, hout, horderly, hclosed, overruled_of_quiet ended, ?_⟩
  refine (settles_copy store chunks path target chunkSize (s, [])).imp (fun hsame more hmore => ?_) fun htotal => ?_
  · rw [hsame more hmore, hout]
  · -- a closing writes nothing, so what has been written is all in the orderly part
    have hcloses : closes.filterMap Contact.written? = [] := by
      refine List.filterMap_eq_nil_iff.mpr fun contact hm => ?_
      have hmap := List.mem_map_of_mem (f := Contact.closed?) hm
      rw [hclosed] at hmap
      obtain ⟨handle, -, hhandle⟩ := List.mem_map.mp hmap
      exact Contact.written?_of_closed? hhandle.symm
    rw [hout, writtenIn, List.filterMap_append, hcloses, List.append_nil] at htotal
    simpa [writtenIn] using htotal

end Orderly

end Store

end FileRouter
