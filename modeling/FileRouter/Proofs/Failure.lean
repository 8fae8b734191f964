import FileRouter.Failure.Conversion
import FileRouter.Proofs.Quoted
import FileRouter.Proofs.World.Layers
import Mathlib
/-!
What callers of the operating system are told.

A provider's failure is told to them by a kind and a number, which depend on its cause and not on the texts that the
cause carries (`Cause.report`). There is one exception: the refusal of a mode quotes the mode, and since a refusal is told
apart by its wording, a mode that speaks of directories makes it one about directories (`report_toSystem_iff`).
-/

namespace FileRouter

/-- What a failure of the operating system is told by: its kind, and its number if it has one. -/
def SystemError.report (error : SystemError) : SystemKind × Option Int := (error.kind, error.number?)

/-! ### Modes that speak of directories -/

namespace Refusal

variable {mode : Text} {quote c d : Char}

/-- The wording by which the refusal to open a directory is known. -/
def opensDirectory : Text := "Cannot open directory".toList

/-- The wording by which refusals are known that miss a directory, in lower case. -/
def missesDirectory : Text := "not a directory".toList

/-- Whether the quoted form of a mode has the first wording in it: just if the mode has. -/
def SpeaksOfOpening (mode : Text) : Prop := opensDirectory <:+: mode

/-- Whether the quoted form of a mode has the second wording in it: if the mode has, or has a line feed, which is quoted
by a backslash and an `n`, in the place of the first letter. -/
def SpeaksOfMissing (mode : Text) : Prop :=
  missesDirectory <:+: Text.asciiLower mode ∨
    ∃ front c behind, mode = front ++ c :: behind ∧ c = '\n' ∧ missesDirectory.tail <+: Text.asciiLower behind

/-- The wordings are of letters and blanks. -/
theorem isLetter_of_mem (h : c ∈ opensDirectory ∨ c ∈ missesDirectory) : c.isAlpha = true ∨ c = ' ' := by
  have hall : (opensDirectory ++ missesDirectory).all (fun c => c.isAlpha || c == ' ') = true := by decide
  simpa using List.all_eq_true.mp hall c (List.mem_append.mpr h)

theorem notMem_of_isQuote (h : quote = '"' ∨ quote = '\'') : quote ∉ opensDirectory ∧ quote ∉ missesDirectory := by
  rcases h with rfl | rfl <;> decide

/-- Nothing but a letter becomes one in lower case. -/
theorem toLower_eq_iff (h : d.isAlpha = false) : c.toLower = d ↔ c = d := by
  by_cases hu : c.isUpper = true
  · have hc : c.isAlpha = true := by rw [Char.isAlpha, hu, Bool.true_or]
    refine iff_of_false (fun he => ?_) fun he => Bool.eq_false_iff.mp h (he ▸ hc)
    rw [← he, Char.isAlpha_toLower_eq_isAlpha, hc] at h
    exact Bool.noConfusion h
  · rw [Char.toLower_eq_of_not_isUpper hu]

theorem isLetter_of_toLower (h : c.toLower.isAlpha = true ∨ c.toLower = ' ') : c.isAlpha = true ∨ c = ' ' := by
  rwa [Char.isAlpha_toLower_eq_isAlpha, toLower_eq_iff (by decide)] at h

theorem shown_opensDirectory (hquote : quote = '"' ∨ quote = '\'') :
    Text.Shown opensDirectory (Text.escaped quote) id where
  cases c := (Text.escaped_cases quote c).imp_right fun ⟨tail, h, _⟩ => ⟨tail, h⟩
  plain c hc := Text.escaped_of_letter hquote (isLetter_of_mem (Or.inl hc))
  clean := by decide

theorem shown_missesDirectory (hquote : quote = '"' ∨ quote = '\'') :
    Text.Shown missesDirectory (fun c => Text.asciiLower (Text.escaped quote c)) Char.toLower where
  cases c := by
    rcases Text.escaped_cases quote c with h | ⟨tail, h, -⟩
    · exact Or.inl (by rw [h]; rfl)
    · exact Or.inr ⟨Text.asciiLower tail, by rw [h]; rfl⟩
  plain c hc := by
    rw [Text.escaped_of_letter hquote (isLetter_of_toLower (isLetter_of_mem (Or.inr hc)))]
    rfl
  clean := by decide

/-- No escape has the first letter of the first wording behind its backslash. -/
theorem ne_of_inEscape (hquote : quote = '"' ∨ quote = '\'') (h : Text.InEscape quote c d) : d ≠ 'C' := by
  rintro rfl
  cases h with
  | same hc he => rcases hc with rfl | rfl <;> rcases hquote with rfl | rfl <;> exact absurd he (by decide)
  | control h => simp at h
  | width h => exact absurd h (by decide)
  | @digit k hk h =>
    have hdigit : ∀ k < 16, 'C' ≠ Nat.digitChar k := by decide
    exact hdigit k hk h

/-- Only the escape of a line feed has the first letter of the second wording behind its backslash. -/
theorem isFeed_of_inEscape (hquote : quote = '"' ∨ quote = '\'') (h : Text.InEscape quote c d) (hd : d.toLower = 'n') :
    c = '\n' := by
  -- an escape has a letter n in it only where it stands for the line feed
  cases h with
  | same hc he =>
    subst he
    rcases hc with rfl | rfl
    · rcases hquote with rfl | rfl <;> exact absurd hd (by decide)
    · exact absurd hd (by decide)
  | control h =>
    rcases h with ⟨-, rfl⟩ | ⟨rfl, -⟩ | ⟨-, rfl⟩
    · exact absurd hd (by decide)
    · rfl
    · exact absurd hd (by decide)
  | width h => rcases h with rfl | rfl | rfl <;> exact absurd hd (by decide)
  | @digit k hk h =>
    have hdigit : ∀ k < 16, (Nat.digitChar k).toLower ≠ 'n' := by decide
    exact absurd (h ▸ hd) (hdigit k hk)

theorem opensDirectory_eq : opensDirectory = 'C' :: "annot open directory".toList := by decide

theorem missesDirectory_eq : missesDirectory = 'n' :: "ot a directory".toList := by decide

/-- A phrase that is neither in front of a quoted mode nor behind it, and has no quote, is in the message just if it is
in what is shown of the mode. -/
theorem infix_around_iff {phrase front shown behind : Text} (hquote : quote ∉ phrase) (hfront : ¬ phrase <:+: front)
    (hbehind : ¬ phrase <:+: behind) :
    phrase <:+: front ++ (quote :: shown ++ [quote]) ++ behind ↔ phrase <:+: shown := by
  rw [List.append_assoc, List.cons_append, List.cons_append, List.append_assoc, List.singleton_append,
    Text.infix_append_cons_iff hquote, or_iff_right hfront, Text.infix_append_cons_iff hquote, or_iff_left hbehind]

theorem asciiLower_around (h : quote.toLower = quote) (shown : Char → Text) (front behind text : Text) :
    Text.asciiLower (front ++ (quote :: text.flatMap shown ++ [quote]) ++ behind) = Text.asciiLower front ++
      (quote :: text.flatMap (fun c => Text.asciiLower (shown c)) ++ [quote]) ++ Text.asciiLower behind := by
  simp only [Text.asciiLower, List.map_append, List.map_cons, List.map_nil, List.map_flatMap, h]

theorem opens_infix_iff (mode : Text) : opensDirectory <:+: (unsupportedMode mode).message ↔ SpeaksOfOpening mode := by
  have hquote := Text.quoteOf_cases mode
  have hshown := shown_opensDirectory hquote
  have hcut : opensDirectory <:+: mode.flatMap (Text.escaped (Text.quoteOf mode)) ↔ opensDirectory <:+: mode.map id ∨
      ∃ front c behind, mode = front ++ c :: behind ∧ False ∧ "annot open directory".toList <+: behind.map id := by
    rw [opensDirectory_eq] at hshown ⊢
    refine hshown.infix_iff (fun _ => False) (fun _ h => h.elim) (fun c tail htail hmem => ?_) mode
    -- what an escape adds has no letter in it that the text begins with
    rcases Text.escaped_cases (Text.quoteOf mode) c with h | ⟨tail', h, hin⟩
    · obtain ⟨-, rfl⟩ := List.cons.inj (h.symm.trans htail)
      exact absurd hmem List.not_mem_nil
    · obtain rfl := (List.cons.inj (h.symm.trans htail)).2
      exact ne_of_inEscape hquote (hin _ hmem) rfl
  rw [List.map_id, or_iff_left fun ⟨_, _, _, _, h, _⟩ => h] at hcut
  -- the rest of the message does not say it, and the quotes keep the mode apart
  have hfront : ¬ opensDirectory <:+: "Unsupported mode ".toList := by decide
  have hbehind : ¬ opensDirectory <:+: " (expected one of r, rw, rws, rwd)".toList := by decide
  exact (infix_around_iff (notMem_of_isQuote hquote).1 hfront hbehind).trans hcut

theorem misses_infix_iff (mode : Text) :
    missesDirectory <:+: Text.asciiLower (unsupportedMode mode).message ↔ SpeaksOfMissing mode := by
  have hquote := Text.quoteOf_cases mode
  have hshown := shown_missesDirectory hquote
  have hcut : missesDirectory <:+: mode.flatMap (fun c => Text.asciiLower (Text.escaped (Text.quoteOf mode) c)) ↔
      missesDirectory <:+: mode.map Char.toLower ∨ ∃ front c behind, mode = front ++ c :: behind ∧ c = '\n' ∧
        "ot a directory".toList <+: behind.map Char.toLower := by
    rw [missesDirectory_eq] at hshown ⊢
    -- an escaped line feed ends in the first letter of the text, which can begin there
    refine hshown.infix_iff (fun c => c = '\n') ?_ (fun c tail htail hmem => ?_) mode
    · rintro _ rfl
      rcases hquote with h | h <;> rw [h] <;> decide
    · rcases Text.escaped_cases (Text.quoteOf mode) c with h | ⟨tail', h, hin⟩
      · rw [h] at htail
        obtain ⟨-, rfl⟩ := List.cons.inj htail
        exact absurd hmem List.not_mem_nil
      · rw [h] at htail
        obtain rfl := (List.cons.inj htail).2
        obtain ⟨d, hd, hlower⟩ := List.mem_map.mp hmem
        exact isFeed_of_inEscape hquote (hin d hd) hlower
  have hlower : (Text.quoteOf mode).toLower = Text.quoteOf mode := by
    rcases hquote with h | h <;> rw [h] <;> decide
  -- the rest of the message does not say it, and the quotes keep the mode apart
  have hfront : ¬ missesDirectory <:+: Text.asciiLower "Unsupported mode ".toList := by decide
  have hbehind : ¬ missesDirectory <:+: Text.asciiLower " (expected one of r, rw, rws, rwd)".toList := by decide
  have hmessage := congrArg (missesDirectory <:+: ·)
    (asciiLower_around hlower (Text.escaped (Text.quoteOf mode)) "Unsupported mode ".toList
      " (expected one of r, rw, rws, rwd)".toList mode)
  exact (iff_of_eq hmessage).trans ((infix_around_iff (notMem_of_isQuote hquote).2 hfront hbehind).trans hcut)

end Refusal

/-! ### Causes without their texts -/

namespace Cause

variable {cause : Cause}

/-- The kind and the number that a cause is told by, whatever texts it carries. -/
def report : Cause → SystemKind × Option Int
  | notFound => (.notFound, some 2)
  | alreadyExists _ => (.exists, some 17)
  | permissionDenied _ => (.permission, some 13)
  | directoryNotEmpty => (.plain, some SystemError.notEmptyNumber)
  | mismatch _ => (.plain, some 18)
  | refused .cannotOpenDirectory => (.isADirectory, some 21)
  | refused .parentNotDirectory | refused .notADirectory => (.notADirectory, some 20)
  | refused _ | storage _ | general _ => (.plain, none)

/-- A cause without the texts that it carries. -/
def bare : Cause → Cause
  | alreadyExists _ => alreadyExists none
  | permissionDenied _ => permissionDenied none
  | mismatch _ => mismatch []
  | refused (.unsupportedMode _) => refused (.unsupportedMode [])
  | refused (.other _) => refused (.other [])
  | storage _ => storage []
  | general _ => general []
  | cause => cause

/-- A cause that is not a refusal in words of a provider's own. -/
def Named (cause : Cause) : Prop := ∀ message, cause ≠ refused (.other message)

/-- A cause that does not refuse a mode which speaks of directories. -/
def Quiet (cause : Cause) : Prop :=
  ∀ mode, cause = refused (.unsupportedMode mode) → ¬ Refusal.SpeaksOfOpening mode ∧ ¬ Refusal.SpeaksOfMissing mode

theorem report_bare (cause : Cause) : cause.bare.report = cause.report := by
  rcases cause with _ | _ | _ | _ | _ | refusal | _ | _
  case refused => cases refusal <;> rfl
  all_goals rfl

theorem eq_other_of_bare (h : cause.bare = refused (.other [])) : ∃ message, cause = refused (.other message) := by
  cases cause with
  | refused refusal =>
    cases refusal with
    | other message => exact ⟨message, rfl⟩
    | _ => simp [bare] at h
  | _ => simp [bare] at h

theorem eq_unsupportedMode_of_bare (h : cause.bare = refused (.unsupportedMode [])) :
    ∃ mode, cause = refused (.unsupportedMode mode) := by
  cases cause with
  | refused refusal =>
    cases refusal with
    | unsupportedMode mode => exact ⟨mode, rfl⟩
    | _ => simp [bare] at h
  | _ => simp [bare] at h

theorem report_eq_of_bare {other : Cause} (h : other.bare = cause.bare) : other.report = cause.report := by
  rw [← report_bare other, h, report_bare]

end Cause

namespace ProviderError

variable {error other : ProviderError} {mode : Text}

/-- A refusal is told apart by its wording. -/
theorem report_toSystem_refused {refusal : Refusal} (h : error.cause = .refused refusal) :
    error.toSystem.report =
      if Text.occursIn Refusal.opensDirectory refusal.message then (.isADirectory, some 21)
      else if Text.occursIn Refusal.missesDirectory (Text.asciiLower refusal.message) then (.notADirectory, some 20)
      else (.plain, none) := by
  obtain ⟨cause, path⟩ := error
  obtain rfl : cause = .refused refusal := h
  have hsystem : (ProviderError.mk (.refused refusal) path).toSystem =
      if Text.occursIn Refusal.opensDirectory refusal.message then
        (ProviderError.mk (.refused refusal) path).withNumber .isADirectory 21
      else if Text.occursIn Refusal.missesDirectory (Text.asciiLower refusal.message) then
        (ProviderError.mk (.refused refusal) path).withNumber .notADirectory 20
      else ⟨.plain, .words (ProviderError.mk (.refused refusal) path).message⟩ := rfl
  rw [hsystem]
  split_ifs <;> rfl

/-- How a refused mode is told. -/
theorem report_toSystem_unsupportedMode (h : error.cause = .refused (.unsupportedMode mode)) :
    (Refusal.SpeaksOfOpening mode → error.toSystem.report = (.isADirectory, some 21)) ∧
    (¬ Refusal.SpeaksOfOpening mode → Refusal.SpeaksOfMissing mode →
      error.toSystem.report = (.notADirectory, some 20)) ∧
    (¬ Refusal.SpeaksOfOpening mode → ¬ Refusal.SpeaksOfMissing mode → error.toSystem.report = (.plain, none)) := by
  have hopens := (Text.occursIn_iff.trans (Refusal.opens_infix_iff mode))
  have hmisses := (Text.occursIn_iff.trans (Refusal.misses_infix_iff mode))
  rw [report_toSystem_refused h]
  refine ⟨fun ho => if_pos (hopens.mpr ho), fun ho hm => ?_, fun ho hm => ?_⟩
  · rw [if_neg (mt hopens.mp ho), if_pos (hmisses.mpr hm)]
  · rw [if_neg (mt hopens.mp ho), if_neg (mt hmisses.mp hm)]

/-- A cause that is quiet is told by its own report. -/
theorem report_toSystem (hnamed : error.cause.Named) (hquiet : error.cause.Quiet) :
    error.toSystem.report = error.cause.report := by
  cases hc : error.cause with
  | refused refusal =>
    cases refusal with
    -- the one message in which the caller has a say
    | unsupportedMode mode =>
      obtain ⟨hopens, hmisses⟩ := hquiet mode hc
      exact (report_toSystem_unsupportedMode hc).2.2 hopens hmisses
    | other message => exact absurd hc (hnamed message)
    | _ =>
      rw [report_toSystem_refused hc]
      decide
  | _ =>
    rw [toSystem, hc]
    rfl

/-- **Just the causes that are quiet are told by their own reports.** -/
theorem report_toSystem_iff_quiet (hnamed : error.cause.Named) :
    error.toSystem.report = error.cause.report ↔ error.cause.Quiet := by
  refine ⟨fun h mode hc => ?_, report_toSystem hnamed⟩
  obtain ⟨hopening, hmissing, -⟩ := report_toSystem_unsupportedMode hc
  have hplain : error.cause.report = (.plain, none) := by rw [hc]; rfl
  rw [hplain] at h
  have hopens : ¬ Refusal.SpeaksOfOpening mode := fun ho => by
    have hdirectory := (hopening ho).symm.trans h
    simp at hdirectory
  refine ⟨hopens, fun hm => ?_⟩
  have hdirectory := (hmissing hopens hm).symm.trans h
  simp at hdirectory

/-- A refusal is told in one of three ways, chosen by two searches. -/
theorem told_eq_iff {a b a' b' : Bool} :
    (if a' then (SystemKind.isADirectory, some (21 : Int)) else if b' then (.notADirectory, some 20) else (.plain, none)) =
        (if a then (SystemKind.isADirectory, some (21 : Int)) else if b then (.notADirectory, some 20) else (.plain, none)) ↔
      (a' = true ↔ a = true) ∧ (¬ a = true → (b' = true ↔ b = true)) := by
  revert a b a' b'
  decide

/-- **Two failures that differ in their texts are told alike** unless they refuse modes of which one speaks of
directories in a way in which the other does not. -/
theorem report_eq_iff (hnamed : error.cause.Named) (hsame : other.cause.bare = error.cause.bare) :
    other.toSystem.report = error.toSystem.report ↔
      ∀ mode mode', error.cause = .refused (.unsupportedMode mode) → other.cause = .refused (.unsupportedMode mode') →
        (Refusal.SpeaksOfOpening mode' ↔ Refusal.SpeaksOfOpening mode) ∧
        (¬ Refusal.SpeaksOfOpening mode → (Refusal.SpeaksOfMissing mode' ↔ Refusal.SpeaksOfMissing mode)) := by
  -- only the message of a mode that is not supported has a text of the caller in it
  by_cases hmode : error.cause.bare = .refused (.unsupportedMode [])
  · obtain ⟨mode, he⟩ := Cause.eq_unsupportedMode_of_bare hmode
    obtain ⟨mode', ho⟩ := Cause.eq_unsupportedMode_of_bare (hsame.trans hmode)
    have hiff : ∀ mode, (Text.occursIn Refusal.opensDirectory (Refusal.unsupportedMode mode).message = true ↔
          Refusal.SpeaksOfOpening mode) ∧
        (Text.occursIn Refusal.missesDirectory (Text.asciiLower (Refusal.unsupportedMode mode).message) = true ↔
          Refusal.SpeaksOfMissing mode) := fun mode =>
      ⟨Text.occursIn_iff.trans (Refusal.opens_infix_iff mode), Text.occursIn_iff.trans (Refusal.misses_infix_iff mode)⟩
    rw [report_toSystem_refused he, report_toSystem_refused ho, told_eq_iff, (hiff mode).1, (hiff mode).2,
      (hiff mode').1, (hiff mode').2]
    refine ⟨fun h first second hfirst hsecond => ?_, fun h => h mode mode' he ho⟩
    rw [he] at hfirst
    rw [ho] at hsecond
    injections
    subst_vars
    exact h
  · have hnot : ∀ mode, error.cause ≠ .refused (.unsupportedMode mode) := fun mode h => hmode (by rw [h]; rfl)
    have hnot' : ∀ mode, other.cause ≠ .refused (.unsupportedMode mode) := fun mode h =>
      hmode (hsame.symm.trans (by rw [h]; rfl))
    have hnamed' : other.cause.Named := fun message h => by
      rw [h] at hsame
      exact hnamed _ (Cause.eq_other_of_bare hsame.symm).choose_spec
    refine iff_of_true ?_ fun mode _ h => absurd h (hnot mode)
    rw [report_toSystem hnamed' fun mode h => absurd h (hnot' mode), report_toSystem hnamed fun mode h => absurd h (hnot mode),
      Cause.report_eq_of_bare hsame]

end ProviderError

/-! ### Refused modes -/

theorem HandleMode.parse_of_notMem {mode : Text} (h : ∀ known ∈ HandleMode.all, known.name ≠ mode) (path : Text) :
    HandleMode.parse mode path = .error (.refused (.unsupportedMode mode) path) := by
  have hnone : HandleMode.all.find? (fun known => known.name == mode) = none :=
    List.find?_eq_none.mpr fun known hm => by simpa using h known hm
  rw [HandleMode.parse, hnone]

namespace World

variable {world : World} {registry id base : Nat} {path inner mode : Text} {chain : List (Text × Bool)}

/-- A mode that does not exist is refused wherever a path leads, and nothing changes. -/
theorem Routed.outcome_openHandle_within (h : Routed world id path chain base inner)
    (hmode : ∀ known ∈ HandleMode.all, known.name ≠ mode) {limit : Nat} (hl : chain.length < limit) (given : Given) :
    ∃ place, (performWithin limit given id (.openHandle path mode)).outcome world =
      (.error (.refused (.unsupportedMode mode) place), world) := by
  induction h generalizing limit given with
  | @base id path hb =>
    obtain ⟨limit, rfl⟩ : ∃ n, limit = n + 1 := Nat.exists_eq_succ_of_ne_zero (Nat.ne_of_gt hl)
    refine ⟨path, ?_⟩
    rw [outcome_performWithin_base hb]
    -- a drive and the disk both read the mode before anything else
    rcases hb.cases with ⟨drive, hd⟩ | ⟨-, hd⟩
    · have hrefused : (Drive.perform (millis world.clock) (.openHandle path mode)).outcome (drive, world.tokens) =
          (.error (.refused (.unsupportedMode mode) path), drive, world.tokens) := by
        rw [Drive.perform, Drive.openHandle, HandleMode.parse_of_notMem hmode]
        rfl
      rw [outcome_direct_memory hd, hrefused]
      simp only [withDrive_self hd]
      rfl
    · have hrefused : (Disk.perform (.openHandle path mode)).outcome (world.disk, world.tokens) =
          (.error (.refused (.unsupportedMode mode) path), world.disk, world.tokens) := by
        rw [Disk.perform, Disk.openHandle, HandleMode.parse_of_notMem hmode]
        rfl
      rw [outcome_direct_disk hd, hrefused]
      rfl
  | @view id behind base path scheme inner claim label readOnly chain hp _ ih =>
    rw [List.length_cons] at hl
    obtain ⟨limit, rfl⟩ : ∃ n, limit = n + 1 := ⟨limit - 1, by omega⟩
    rw [outcome_performWithin_view hp]
    -- a read-only view reads the mode itself, to tell whether it writes; another one passes it on
    cases readOnly with
    | false => exact ih (show chain.length < limit by omega) .all
    | true =>
      refine ⟨path, ?_⟩
      rw [if_pos rfl, View.guarded, HandleMode.parse_of_notMem hmode]
      rfl

theorem Routed.outcome_openHandle (h : Routed world (world.owner registry path) path chain base inner)
    (hmode : ∀ known ∈ HandleMode.all, known.name ≠ mode) :
    ∃ place, (perform registry (.openHandle path mode)).outcome world =
      (.error (.refused (.unsupportedMode mode) place), world) := by
  rw [outcome_perform_owner rfl]
  exact h.outcome_openHandle_within hmode h.length_lt_handOverLimit .all

/-- **Callers of the operating system are told of a failure by its cause, but for modes that speak of directories.** Two
failures that differ in their texts are told alike unless they refuse such modes; a failure is told by the kind and the
number of its cause just if it does not refuse one; and a mode that does not exist, which is refused wherever its path
leads, is told as a directory that was to be opened, as something that is no directory, or as no such failure, just as
the mode speaks of them. -/
theorem report_toSystem_iff {error other : ProviderError} (hnamed : error.cause.Named)
    (hsame : other.cause.bare = error.cause.bare) (h : Routed world (world.owner registry path) path chain base inner)
    (hmode : ∀ known ∈ HandleMode.all, known.name ≠ mode) :
    (other.toSystem.report = error.toSystem.report ↔
      ∀ first second, error.cause = .refused (.unsupportedMode first) →
        other.cause = .refused (.unsupportedMode second) →
        (Refusal.SpeaksOfOpening second ↔ Refusal.SpeaksOfOpening first) ∧
        (¬ Refusal.SpeaksOfOpening first → (Refusal.SpeaksOfMissing second ↔ Refusal.SpeaksOfMissing first))) ∧
    (error.toSystem.report = error.cause.report ↔ error.cause.Quiet) ∧
    ∃ refused : ProviderError, refused.cause = .refused (.unsupportedMode mode) ∧
      (perform registry (.openHandle path mode)).outcome world = (.error (.provider refused), world) ∧
      (Refusal.SpeaksOfOpening mode → refused.toSystem.report = (.isADirectory, some 21)) ∧
      (¬ Refusal.SpeaksOfOpening mode → Refusal.SpeaksOfMissing mode →
        refused.toSystem.report = (.notADirectory, some 20)) ∧
      (¬ Refusal.SpeaksOfOpening mode → ¬ Refusal.SpeaksOfMissing mode →
        refused.toSystem.report = (.plain, none)) := by
  obtain ⟨place, hout⟩ := h.outcome_openHandle hmode
  exact ⟨error.report_eq_iff hnamed hsame, error.report_toSystem_iff_quiet hnamed,
    ⟨.refused (.unsupportedMode mode), some place⟩, rfl, hout, ProviderError.report_toSystem_unsupportedMode rfl⟩

/-- A mode refused for a file of a drive behind two views: its line feed is quoted, which makes it speak of something that
is no directory. -/
theorem report_toSystem_iff_feed :
    let path : Text := "via:ro:mem:a".toList
    let mode : Text := "\not a directory".toList
    let error : ProviderError := ⟨.refused (.unsupportedMode ['x']), some path⟩
    let other : ProviderError := ⟨.refused (.unsupportedMode mode), none⟩
    error.cause.Named ∧ other.cause.bare = error.cause.bare ∧
      Routed viewedWorld (viewedWorld.owner 0 path) path [("via".toList, false), ("ro".toList, true)] 1 "mem:a".toList ∧
      (∀ known ∈ HandleMode.all, known.name ≠ mode) ∧
      ∃ refused : ProviderError, (perform 0 (.openHandle path mode)).outcome viewedWorld =
        (.error (.provider refused), viewedWorld) ∧ refused.toSystem.report = (.notADirectory, some 20) := by
  intro path mode error other
  have hnamed : error.cause.Named := fun message h => by simp [error] at h
  have hrouted : Routed viewedWorld (viewedWorld.owner 0 path) path [("via".toList, false), ("ro".toList, true)] 1
      "mem:a".toList := .view rfl (.view rfl (.base ⟨_, rfl, Or.inr ⟨_, rfl⟩⟩))
  have hmode : ∀ known ∈ HandleMode.all, known.name ≠ mode := by decide
  have hbare : other.cause.bare = error.cause.bare := rfl
  obtain ⟨-, -, refused, -, hout, -, hmissing, -⟩ := report_toSystem_iff hnamed hbare hrouted hmode
  have hopening : ¬ Refusal.opensDirectory <:+: mode := by decide
  have hspeaks : Refusal.SpeaksOfMissing mode := Or.inr ⟨[], '\n', "ot a directory".toList, rfl, rfl, by decide⟩
  exact ⟨hnamed, hbare, hrouted, hmode, refused, hout, hmissing hopening hspeaks⟩

/-- The handle mode that speaks of a directory which cannot be opened is told as one, unlike other modes. -/
theorem not_forall_report_toSystem :
    (¬ ∀ error other : ProviderError, error.cause.Named → other.cause.bare = error.cause.bare →
      other.toSystem.report = error.toSystem.report) ∧
    ∃ refused : ProviderError, (perform 0 (.openHandle "mem:a".toList Refusal.opensDirectory)).outcome viewedWorld =
      (.error (.provider refused), viewedWorld) ∧ refused.toSystem.report = (.isADirectory, some 21) := by
  refine ⟨fun h => ?_, ⟨.refused (.unsupportedMode Refusal.opensDirectory), some "mem:a".toList⟩, rfl, ?_⟩
  · have hsame := h ⟨.refused (.unsupportedMode ['x']), none⟩ ⟨.refused (.unsupportedMode Refusal.opensDirectory), none⟩
      (fun message h => by simp at h) rfl
    exact absurd hsame (by decide)
  · decide

end World
end FileRouter
