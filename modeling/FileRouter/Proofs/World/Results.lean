import FileRouter.Proofs.Request
import FileRouter.Proofs.Scheme
import FileRouter.World.Stores
/-!
Requests, their results, and what a view makes of them.

The answers to different requests have different types. `Result` is one type for all of them, in which a path
that leads back to a provider is told apart from a text that does not. A plain view takes its scheme off the
paths of a request and puts it in front of the paths in the result, and does nothing else but to refuse some
moves (`outcome_forward`). A read-only view refuses a request, denies it, or hands it on as one that only reads
(`outcome_guarded`).
-/

namespace FileRouter

/-- What an operation comes to. A `path` leads back to the provider that answers; a `text` is a name, or what
is left of a path behind all views. -/
inductive Result where
  | nothing
  | flag (value : Bool)
  | text (value : Text)
  | path (value : Text)
  | optionalPath (value : Option Text)
  | paths (values : List Text)
  | number (value : Int)
  | handle (value : Handle)
  | deletion (outcome : DeleteOutcome)
  deriving Repr, DecidableEq

namespace Result

/-- The result that the answer to a request is. -/
def ofReply : (request : Request) → request.Reply Handle → Result
  | .exists _, answer | .createFile _, answer | .isAbsolute _, answer | .isDirectory _, answer
  | .canWrite _, answer | .isReadOnly _, answer | .setReadOnly _, answer
  | .startsWith _ _, answer => .flag answer
  | .createDirectory _, _ | .delete _, _ | .move _ _ _, _ => .nothing
  | .name _, answer | .unwrap _, answer => .text answer
  | .canonicalPath _, answer | .createTemp _ _ _ _, answer => .path answer
  | .parent _, answer => .optionalPath answer
  | .listFiles _, answer => .paths answer
  | .lastModified _, answer | .size _, answer => .number answer
  | .openHandle _ _, answer | .openInput _, answer | .openOutput _ _, answer => .handle answer

/-- A result with the paths in it changed. -/
def mapPaths (f : Text → Text) : Result → Result
  | path value => path (f value)
  | optionalPath value => optionalPath (value.map f)
  | paths values => paths (values.map f)
  | deletion outcome => deletion { outcome with path := f outcome.path }
  | result => result

/-- The paths that a result leads to. -/
def leadsTo : Result → List Text
  | path value => [value]
  | optionalPath value => value.toList
  | paths values => values
  | deletion outcome => [outcome.path]
  | _ => []

/-- The handle that a result brings. -/
def handle? : Result → Option Handle
  | handle value => some value
  | _ => none

theorem ofReply_injective (request : Request) : Function.Injective (ofReply request) := by
  intro first second h
  cases request <;> first | rfl | injection h

theorem mapPaths_id (result : Result) : result.mapPaths id = result := by
  cases result <;> simp [mapPaths]

theorem mapPaths_mapPaths (f g : Text → Text) (result : Result) :
    (result.mapPaths f).mapPaths g = result.mapPaths (g ∘ f) := by
  cases result <;> simp [mapPaths]

theorem leadsTo_mapPaths (f : Text → Text) (result : Result) :
    (result.mapPaths f).leadsTo = result.leadsTo.map f := by
  cases result with
  | optionalPath value => cases value <;> rfl
  | _ => rfl

@[simp] theorem handle?_mapPaths (f : Text → Text) (result : Result) :
    (result.mapPaths f).handle? = result.handle? := by
  cases result <;> rfl

end Result

/-! ### Views -/

namespace View

variable {σ : Type} {scheme : Text} {owner : Text → Nat}
  {next next' : Nat → (request : Request) → Call σ (request.Reply Handle)} {request : Request} {s : σ}

/-- A request that is made of a provider, with its answer as a result. -/
def result (next : Nat → (request : Request) → Call σ (request.Reply Handle)) (id : Nat)
    (request : Request) : Call σ Result :=
  Result.ofReply request <$> next id request

/-- Why a view does not hand on a request, if it does not: what it leads to has to have one owner. -/
def mismatch? (scheme : Text) (owner : Text → Nat) : Request → Option Failure
  | .move old new _ =>
    if owner (Scheme.strip new scheme) ≠ owner (Scheme.strip old scheme) then
      some (.atPath (.mismatch new) old)
    else none
  | _ => none

/-- The result tells what was answered. -/
theorem outcome_eq_of_result {call call' : Call σ (request.Reply Handle)}
    (h : (Result.ofReply request <$> call).outcome s = (Result.ofReply request <$> call').outcome s) :
    call.outcome s = call'.outcome s := by
  rw [Call.outcome_map, Call.outcome_map, Prod.mk.injEq] at h
  obtain ⟨hresult, hstate⟩ := h
  refine Prod.ext ?_ hstate
  cases hc : (call.outcome s).1 with
  | error failure =>
    cases hc' : (call'.outcome s).1 with
    | error failure' =>
      rw [hc, hc'] at hresult
      exact congrArg Except.error (Except.error.inj hresult)
    | ok reply' => simp [hc, hc', Except.map] at hresult
  | ok reply =>
    cases hc' : (call'.outcome s).1 with
    | error failure' => simp [hc, hc', Except.map] at hresult
    | ok reply' =>
      rw [hc, hc'] at hresult
      -- the result of a reply forgets its type, but nothing else
      exact congrArg Except.ok (Result.ofReply_injective request (Except.ok.inj hresult))

/-- **A plain view** hands a request on with its scheme taken off the paths, and puts the scheme back in front
of the paths in the result. -/
theorem outcome_forward (s : σ) :
    (Result.ofReply request <$> forward scheme owner next request).outcome s =
      match mismatch? scheme owner request with
      | some failure => (.error failure, s)
      | none =>
        let out := (result next (owner (Scheme.strip request.path scheme))
          (request.mapPaths (Scheme.strip · scheme))).outcome s
        (out.1.map (Result.mapPaths (Scheme.join scheme)), out.2) := by
  cases request with
  | move old new replace =>
    -- `move` is the one request with a second path, which may belong to another owner
    by_cases hsame : owner (Scheme.strip new scheme) = owner (Scheme.strip old scheme)
    · have hforward : forward scheme owner next (.move old new replace) =
          next (owner (Scheme.strip old scheme))
            (.move (Scheme.strip old scheme) (Scheme.strip new scheme) replace) :=
        if_neg (not_not_intro hsame)
      rw [hforward, mismatch?, if_neg (not_not_intro hsame)]
      simp only [result, Request.path, Request.mapPaths, Call.outcome_map]
      rcases (next _ _).outcome s with ⟨_ | _, _⟩ <;> rfl
    · have hforward : forward scheme owner next (.move old new replace) =
          (throw (.atPath (.mismatch new) old) >>= fun (_ : PUnit) =>
            next (owner (Scheme.strip old scheme))
              (.move (Scheme.strip old scheme) (Scheme.strip new scheme) replace)) :=
        if_pos hsame
      rw [hforward, mismatch?, if_pos hsame]
      rfl
  | canonicalPath path | parent path | listFiles path | createTemp path ending deleteOnExit inTempDir =>
    simp only [forward, mismatch?, result, Request.path, Request.mapPaths, Call.outcome_map,
      Call.outcome_bind]
    rcases (next _ _).outcome s with ⟨_ | _, _⟩ <;> rfl
  | _ =>
    simp only [forward, mismatch?, result, Request.path, Request.mapPaths, Call.outcome_map]
    rcases (next _ _).outcome s with ⟨_ | _, _⟩ <;> rfl

/-- What a view does depends on the owner of the path behind it alone. -/
theorem forward_congr
    (h : ∀ behind : Request, behind.path = Scheme.strip request.path scheme →
      (next (owner behind.path) behind).outcome s = (next' (owner behind.path) behind).outcome s) :
    (forward scheme owner next request).outcome s = (forward scheme owner next' request).outcome s := by
  have hbehind := h (request.mapPaths (Scheme.strip · scheme)) (Request.path_mapPaths _ request)
  rw [Request.path_mapPaths] at hbehind
  refine outcome_eq_of_result ?_
  rw [outcome_forward, outcome_forward, result, result, Call.outcome_map, Call.outcome_map, hbehind]

/-- What a read-only view makes of a request: it refuses it, answers that it is not so, or hands it on, or a
question in its place. -/
inductive Verdict where
  | refuse (failure : Failure)
  | deny
  | pass (request : Request)

/-- What becomes of each request. -/
def verdict : Request → Verdict
  | .createDirectory path => .refuse (readOnlyFault path)
  | .createFile path => .refuse (readOnlyFault path)
  | .delete path => .refuse (readOnlyFault path)
  | .move old _ _ => .refuse (readOnlyFault old)
  | .openHandle path mode =>
    match HandleMode.parse mode path with
    | .error failure => .refuse failure
    | .ok parsed => if parsed.writes then .refuse (readOnlyFault path) else .pass (.openHandle path mode)
  | .openOutput path _ => .refuse (readOnlyFault path)
  | .canWrite _ => .deny
  | .isReadOnly path => .pass (.exists path)
  | .setReadOnly path => .pass (.exists path)
  | .createTemp start _ _ _ => .refuse (readOnlyFault start)
  | request => .pass request

/-- **A read-only view** does what the verdict on a request says. -/
theorem outcome_guarded (s : σ) :
    (Result.ofReply request <$> guarded scheme owner next request).outcome s =
      match verdict request with
      | .refuse failure => (.error failure, s)
      | .deny => (.ok (.flag false), s)
      | .pass request' => (Result.ofReply request' <$> forward scheme owner next request').outcome s := by
  cases request with
  | openHandle path mode =>
    simp only [guarded, verdict]
    cases HandleMode.parse mode path with
    | error failure => rfl
    | ok parsed =>
      simp only [Call.outcome_map, Call.outcome_bind, Call.outcome_ofExcept]
      cases parsed.writes <;> rfl
  | _ => rfl

/-- Whatever a read-only view hands on only reads, and goes where the request has gone. -/
theorem pass_reads {request' : Request} (h : verdict request = .pass request') :
    request'.Reads ∧ request'.path = request.path := by
  cases request with
  | openHandle path mode =>
    simp only [verdict] at h
    cases hp : HandleMode.parse mode path with
    | error failure => simp [hp] at h
    | ok parsed =>
      rw [hp] at h
      simp only at h
      -- a mode that writes has been refused
      split_ifs at h with hw
      obtain rfl := Verdict.pass.inj h
      refine ⟨fun {parsed'} hp' => ?_, rfl⟩
      rw [hp] at hp'
      obtain rfl := Except.ok.inj hp'
      exact Bool.eq_false_iff.mpr hw
  | createDirectory | createFile | delete | move | openOutput | createTemp | canWrite => simp [verdict] at h
  | _ =>
    obtain rfl := Verdict.pass.inj h
    exact ⟨trivial, rfl⟩

theorem guarded_congr
    (h : ∀ behind : Request, behind.path = Scheme.strip request.path scheme →
      (next (owner behind.path) behind).outcome s = (next' (owner behind.path) behind).outcome s) :
    (guarded scheme owner next request).outcome s = (guarded scheme owner next' request).outcome s := by
  refine outcome_eq_of_result ?_
  rw [outcome_guarded, outcome_guarded]
  cases hv : verdict request with
  | refuse failure => rfl
  | deny => rfl
  | pass request' =>
    obtain ⟨-, hpath⟩ := pass_reads hv
    simp only [Call.outcome_map]
    rw [forward_congr fun behind hb => h behind (hpath ▸ hb)]

/-- The request that a view makes for one that it is asked: plain views ask any, read-only ones only read. -/
def view (readOnly : Bool) (scheme : Text) (owner : Text → Nat)
    (next : Nat → (request : Request) → Call σ (request.Reply Handle)) (request : Request) :
    Call σ (request.Reply Handle) :=
  if readOnly then guarded scheme owner next request else forward scheme owner next request

/-- What a view comes to: it answers by itself, and leaves the state alone, or it asks the owner of the path
behind it. -/
inductive Served (readOnly : Bool) (scheme : Text) (owner : Text → Nat)
    (next : Nat → (request : Request) → Call σ (request.Reply Handle)) (request : Request) (s : σ) :
    Except Failure Result × σ → Prop
  | alone {answer : Except Failure Result} :
      (∀ {value : Result}, answer = .ok value → value.leadsTo = [] ∧ value.handle? = none) →
      Served readOnly scheme owner next request s (answer, s)
  | asked {behind : Request} : behind.path = Scheme.strip request.path scheme →
      (readOnly = true ∨ request.Reads → behind.Reads) →
      Served readOnly scheme owner next request s
        (((result next (owner behind.path) behind).outcome s).1.map (Result.mapPaths (Scheme.join scheme)),
          ((result next (owner behind.path) behind).outcome s).2)

/-- A view leaves the state as it is, or as the request behind it leaves it. -/
theorem Served.state {readOnly : Bool} {out : Except Failure Result × σ}
    (h : Served readOnly scheme owner next request s out) :
    out.2 = s ∨ ∃ behind : Request, behind.path = Scheme.strip request.path scheme ∧
      (readOnly = true ∨ request.Reads → behind.Reads) ∧
      out.2 = ((next (owner behind.path) behind).outcome s).2 := by
  cases h with
  | alone _ => exact Or.inl rfl
  | @asked behind hpath hreads =>
    refine Or.inr ⟨behind, hpath, hreads, ?_⟩
    rw [result, Call.outcome_map]

theorem served_forward (readOnly : Bool) {request' : Request} (hpath : request'.path = request.path)
    (hreads : readOnly = true ∨ request.Reads → request'.Reads) :
    Served readOnly scheme owner next request s
      ((Result.ofReply request' <$> forward scheme owner next request').outcome s) := by
  rw [outcome_forward]
  cases mismatch? scheme owner request' with
  | some failure => exact .alone fun h => by simp at h
  | none =>
    have hbehind := Request.path_mapPaths (Scheme.strip · scheme) request'
    rw [← hbehind]
    exact .asked (hbehind.trans (by rw [hpath])) fun h => (hreads h).mapPaths _

/-- **What a view does**, whatever it is asked. -/
theorem served_view (readOnly : Bool) (request : Request) (s : σ) :
    Served readOnly scheme owner next request s
      ((Result.ofReply request <$> view readOnly scheme owner next request).outcome s) := by
  cases readOnly with
  | false => exact served_forward false rfl fun h => h.resolve_left (by simp)
  | true =>
    have hguarded : view true scheme owner next request = guarded scheme owner next request := rfl
    rw [hguarded, outcome_guarded]
    cases hv : verdict request with
    | refuse failure => exact .alone fun h => by simp at h
    | deny => exact .alone fun h => by rw [← Except.ok.inj h]; exact ⟨rfl, rfl⟩
    | pass request' =>
      obtain ⟨hreads, hpath⟩ := pass_reads hv
      exact served_forward true hpath fun _ => hreads

end View

end FileRouter
