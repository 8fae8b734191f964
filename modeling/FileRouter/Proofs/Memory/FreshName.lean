import FileRouter.Proofs.Memory.Run
import FileRouter.Proofs.Tokens
import Mathlib.Data.List.Nodup
import Mathlib.Data.List.Perm.Subperm
/-!
Searching for a fresh name.

A candidate is the beginning that is asked for, a token and the ending, read as a path. The name that the token is in
stands in the directory that the beginning leads to (`ofText_candidateText`), and the ending may go on from there. As
long as it does not lead back above that name, distinct tokens lead to distinct keys, so one more token than the tree
has entries is always enough (`exists_isUnused`). Where it does lead back, all candidates are one and the same
(`ofText_candidateText_of_return`): if nothing is there, the first token is taken, and if something is, the search never
ends (`searchEnds_iff`).
-/

namespace FileRouter.Drive

open KeyMap TokenSource

/-- The directory that a beginning leads to. -/
def tempDirectory (drive : Drive) (start : Text) : Key :=
  Key.ofText (Text.beforeLast '/' (Scheme.strip start drive.scheme))

/-- The name that the token of a candidate is in. -/
def tempName (drive : Drive) (start ending token : Text) : Text :=
  Text.afterLast '/' (Scheme.strip start drive.scheme) ++ token ++ (Text.parts '/' ending).headD []

/-- The key that all candidates have, if the ending leads back above the name that the token is in. -/
def returnKey? (drive : Drive) (start ending : Text) : Option Key :=
  (Key.exit? 0 (Text.parts '/' ending).tail).map fun segments => segments.foldl Key.push (drive.tempDirectory start)

/-- The search for a name ends after a number of tokens, with a path or a failure, however many it might draw. -/
def SearchEnds (drive : Drive) (tokens : TokenSource) (now : Int) (start ending : Text) (n : Nat) : Prop :=
  ∃ result drive', result ≠ .error .endless ∧ ∀ limit ≥ n,
    (createTempWithin limit now start ending).outcome (drive, tokens) = (result, drive', tokens.advanced n)

variable {drive : Drive} {tokens : TokenSource} {start ending token : Text}

/-! ### Candidates -/

theorem notMem_of_isHexadecimal {c : Char} (hc : c ∉ "0123456789abcdefABCDEF".toList) (h : IsHexadecimal token) :
    c ∉ token :=
  fun hm => hc (h.2 c hm)

/-- A name with a hexadecimal digit in it stands for no other directory. -/
theorem isName_tempName (drive : Drive) (start ending : Text) (h : IsHexadecimal token) :
    Key.IsName (drive.tempName start ending token) := by
  have hfirst : '/' ∉ (Text.parts '/' ending).headD [] := by
    cases hp : Text.parts '/' ending with
    | nil => simp
    | cons first others => exact Text.not_mem_of_mem_parts (hp ▸ List.mem_cons_self)
  -- a hexadecimal digit of the token keeps the name from being empty or one of the dots
  obtain ⟨c, hc⟩ := List.exists_mem_of_ne_nil token h.1
  have hname : c ∈ drive.tempName start ending token := by simp [tempName, hc]
  have hdot : c ≠ '.' := fun he => notMem_of_isHexadecimal (by decide) h (he ▸ hc)
  refine ⟨List.ne_nil_of_mem hname, ?_, fun he => ?_, fun he => ?_⟩
  · rw [tempName, List.mem_append, List.mem_append, not_or, not_or]
    exact ⟨⟨Text.notMem_afterLast _ _, notMem_of_isHexadecimal (by decide) h⟩, hfirst⟩
  · rw [he] at hname
    exact hdot (by simpa [Key.here] using hname)
  · rw [he] at hname
    exact hdot (by simpa [Key.above] using hname)

/-- A candidate leads to the name with the token, and on from there. -/
theorem ofText_candidateText (drive : Drive) (start ending : Text) (h : IsHexadecimal token) :
    Key.ofText (drive.candidateText start ending token) =
      (Text.parts '/' ending).tail.foldl Key.push
        (drive.tempDirectory start ++ [drive.tempName start ending token]) := by
  have hpiece : '/' ∉ Text.afterLast '/' (Scheme.strip start drive.scheme) ++ token := by
    rw [List.mem_append, not_or]
    exact ⟨Text.notMem_afterLast _ _, notMem_of_isHexadecimal (by decide) h⟩
  rw [candidateText, List.append_assoc, Key.ofText_dropLeading]
  conv_lhs => rw [← Text.beforeLast_append_afterLast '/' (Scheme.strip start drive.scheme)]
  rw [List.append_assoc, ← List.append_assoc _ token, Key.ofText_beforeLast_append, Text.parts_append_piece hpiece,
    List.foldl_cons]
  exact congrArg (List.foldl Key.push · _) (Key.push_of_isName (isName_tempName drive start ending h) _)

/-- A candidate begins with a single slash, as the paths in a tree do. -/
theorem isOutside_candidateText (drive : Drive) (start ending : Text) (h : IsHexadecimal token) :
    isOutside (drive.candidateText start ending token) = false := by
  have hdigit : ∀ {c rest}, token = c :: rest → c ≠ '/' := by
    rintro c rest rfl rfl
    exact notMem_of_isHexadecimal (by decide) h List.mem_cons_self
  rw [candidateText]
  -- the first character is one of the start, where that is not all slashes, or else one of the token
  cases hd : Text.dropLeading '/' (Scheme.strip start drive.scheme) with
  | nil =>
    cases token with
    | nil => exact absurd rfl h.1
    | cons c token => simp [isOutside, hdigit rfl]
  | cons c rest =>
    have hhead := List.head?_dropWhile_not (· == '/') (Scheme.strip start drive.scheme)
    rw [Text.dropLeading] at hd
    rw [hd] at hhead
    have hc : c ≠ '/' := by simpa using hhead
    simp [isOutside, hc]

theorem isUnused_candidateText (drive : Drive) (start ending : Text) (h : IsHexadecimal token) :
    drive.isUnused (drive.candidateText start ending token) =
      !drive.tree.has (Key.ofText (drive.candidateText start ending token)) := by
  rw [isUnused, isOutside_candidateText drive start ending h, Bool.false_or]

/-- Where the ending does not lead back, the key tells the token. -/
theorem token_eq_of_ofText_eq {token' : Text} (hstays : drive.returnKey? start ending = none) (h : IsHexadecimal token)
    (h' : IsHexadecimal token')
    (hsame : Key.ofText (drive.candidateText start ending token) =
      Key.ofText (drive.candidateText start ending token')) : token = token' := by
  rw [returnKey?, Option.map_eq_none_iff] at hstays
  rw [ofText_candidateText drive start ending h, ofText_candidateText drive start ending h'] at hsame
  have hgoes : ∀ key : Key, (Text.parts '/' ending).tail.foldl Key.push key =
      key ++ (Text.parts '/' ending).tail.foldl Key.push [] := by
    intro key
    have hbelow := Key.foldl_push_of_stays hstays key (List.length_nil : ([] : Key).length = 0)
    rwa [List.append_nil] at hbelow
  rw [hgoes (_ ++ [drive.tempName start ending token]), hgoes (_ ++ [drive.tempName start ending token']),
    List.append_left_inj, List.append_right_inj, List.singleton_inj, tempName, tempName, List.append_left_inj,
    List.append_right_inj] at hsame
  exact hsame

/-- Where the ending leads back, every token leads to the same key. -/
theorem ofText_candidateText_of_return {key : Key} (hreturn : drive.returnKey? start ending = some key)
    (h : IsHexadecimal token) : Key.ofText (drive.candidateText start ending token) = key := by
  obtain ⟨later, hexit, rfl⟩ := Option.map_eq_some_iff.mp hreturn
  rw [ofText_candidateText drive start ending h, Key.foldl_push_of_exit hexit _ rfl]

/-- **One more token than there are entries is enough**, unless the ending leads back above the name. -/
theorem exists_isUnused (hdistinct : Function.Injective tokens.token) (hhex : ∀ n, IsHexadecimal (tokens.token n))
    (hstays : drive.returnKey? start ending = none) :
    ∃ n ≤ drive.tree.length, drive.isUnused (drive.candidateText start ending (tokens.token n)) = true := by
  by_contra hno
  push Not at hno
  -- otherwise the tree has as many distinct keys as tokens have been tried
  let candidate := fun n => Key.ofText (drive.candidateText start ending (tokens.token n))
  have hused : (List.range (drive.tree.length + 1)).map candidate ⊆ drive.tree.map Prod.fst := by
    intro key hkey
    obtain ⟨n, hn, rfl⟩ := List.mem_map.mp hkey
    have hhas := hno n (Nat.le_of_lt_succ (List.mem_range.mp hn))
    rw [isUnused_candidateText drive start ending (hhex n), ne_eq, Bool.not_eq_true', Bool.not_eq_false,
      has_iff] at hhas
    obtain ⟨node, hnode⟩ := hhas
    exact List.mem_map.mpr ⟨_, mem_of_get? hnode, rfl⟩
  have hnodup : ((List.range (drive.tree.length + 1)).map candidate).Nodup :=
    List.nodup_range.map fun m n hsame => hdistinct (token_eq_of_ofText_eq hstays (hhex m) (hhex n) hsame)
  have hle := (hnodup.subperm hused).length_le
  rw [List.length_map, List.length_map, List.length_range] at hle
  omega

/-! ### The search -/

/-- As long as every candidate is an entry, the search goes on. -/
theorem outcome_createTempWithin_of_used (now : Int) {limit : Nat}
    (h : ∀ i < limit, drive.isUnused (drive.candidateText start ending (tokens.token i)) = false) :
    (createTempWithin limit now start ending).outcome (drive, tokens) =
      (.error .endless, drive, tokens.advanced limit) := by
  rw [createTempWithin, Call.outcome_bind, Call.outcome_get]
  simp only
  rw [search_of_none h, Call.outcome_bind, Call.outcome_set]
  rfl

/-- A search settles on the first candidate that is no entry, and makes a file there if it can. -/
theorem outcome_createTempWithin_of_unused (now : Int) {n limit : Nat} (h : IsHexadecimal (tokens.token n))
    (hused : ∀ i < n, drive.isUnused (drive.candidateText start ending (tokens.token i)) = false)
    (hn : drive.isUnused (drive.candidateText start ending (tokens.token n)) = true) (hlimit : n < limit) :
    (createTempWithin limit now start ending).outcome (drive, tokens) =
      let key := Key.ofText (drive.candidateText start ending (tokens.token n))
      let made := (create key (.newFile now) start).outcome drive
      (made.1.map fun _ => drive.pathOf key, made.2, tokens.advanced (n + 1)) := by
  rw [createTempWithin, Call.outcome_bind, Call.outcome_get]
  simp only
  rw [search_of_first hused hn hlimit, Call.outcome_bind, Call.outcome_set]
  simp only [isOutside_candidateText drive start ending h, Bool.false_eq_true, if_false, Call.outcome_bind,
    Call.outcome_within]
  rcases (create (Key.ofText (drive.candidateText start ending (tokens.token n))) (.newFile now) start).outcome
    drive with ⟨_ | _, _⟩ <;> rfl

/-- A search ends with the first candidate that is no entry: a file is made there, or cannot be made. -/
theorem searchEnds_of_unused (now : Int) {n : Nat} (h : IsHexadecimal (tokens.token n))
    (hused : ∀ i < n, drive.isUnused (drive.candidateText start ending (tokens.token i)) = false)
    (hn : drive.isUnused (drive.candidateText start ending (tokens.token n)) = true) :
    SearchEnds drive tokens now start ending (n + 1) := by
  let key := Key.ofText (drive.candidateText start ending (tokens.token n))
  let made := (create key (.newFile now) start).outcome drive
  refine ⟨made.1.map fun _ => drive.pathOf key, made.2, fun hendless => ?_, fun limit hlimit =>
    outcome_createTempWithin_of_unused now h hused hn hlimit⟩
  simp only [made, outcome_create] at hendless
  cases hfault : drive.parentFault? key start with
  | none => simp [hfault, Except.map] at hendless
  | some failure =>
    rw [hfault] at hendless
    obtain rfl : failure = .endless := by simpa [Except.map] using hendless
    rcases parentFault?_cases hfault with he | he <;> cases he

/-- The tokens that a request tries at most are one more than there are entries, or more than that. -/
theorem lt_searchLimit (drive : Drive) (tokens : TokenSource) : drive.tree.length < drive.searchLimit tokens := by
  rw [searchLimit]
  omega

/-- **When the search for a fresh name ends.** For every drive, every beginning and ending of the name, and every
source of distinct hexadecimal tokens: the search ends, after at most one more token than the tree has entries,
exactly when the ending does not lead back above the name with the token, or leads back to a place where nothing is.
In every other case it never ends: every token leads to the same entry. -/
theorem searchEnds_iff (hdistinct : Function.Injective tokens.token) (hhex : ∀ n, IsHexadecimal (tokens.token n))
    (now : Int) (start ending : Text) :
    ((∃ n ≤ drive.tree.length + 1, SearchEnds drive tokens now start ending n ∧
        (createTemp now start ending).outcome (drive, tokens) =
          (createTempWithin n now start ending).outcome (drive, tokens)) ↔
      ∀ key ∈ drive.returnKey? start ending, drive.tree.has key = false) ∧
    ∀ key ∈ drive.returnKey? start ending, drive.tree.has key = true → ∀ limit,
      (createTempWithin limit now start ending).outcome (drive, tokens) =
        (.error .endless, drive, tokens.advanced limit) := by
  have hnever : ∀ key ∈ drive.returnKey? start ending, drive.tree.has key = true → ∀ limit,
      (createTempWithin limit now start ending).outcome (drive, tokens) =
        (.error .endless, drive, tokens.advanced limit) := by
    intro key hreturn hhas limit
    refine outcome_createTempWithin_of_used now fun i _ => ?_
    rw [isUnused_candidateText drive start ending (hhex i), ofText_candidateText_of_return hreturn (hhex i), hhas]
    rfl
  refine ⟨⟨?_, fun hfree => ?_⟩, hnever⟩
  · rintro ⟨n, -, ⟨result, drive', hends, hsame⟩, -⟩ key hreturn
    by_contra hhas
    have hendless := hnever key hreturn (by simpa using hhas) n
    rw [hsame n (Nat.le_refl n), Prod.mk.injEq] at hendless
    exact hends hendless.1
  · -- the first candidate that is no entry comes among the first of them
    have hex : ∃ n ≤ drive.tree.length,
        drive.isUnused (drive.candidateText start ending (tokens.token n)) = true := by
      cases hreturn : drive.returnKey? start ending with
      | none => exact exists_isUnused hdistinct hhex hreturn
      | some key =>
        refine ⟨0, Nat.zero_le _, ?_⟩
        rw [isUnused_candidateText drive start ending (hhex 0), ofText_candidateText_of_return hreturn (hhex 0),
          hfree key hreturn]
        rfl
    classical
    obtain ⟨m, hm, hunused⟩ := hex
    have hsome : ∃ n, drive.isUnused (drive.candidateText start ending (tokens.token n)) = true := ⟨m, hunused⟩
    have hle : Nat.find hsome ≤ m := Nat.find_min' hsome hunused
    have hends : SearchEnds drive tokens now start ending (Nat.find hsome + 1) :=
      searchEnds_of_unused now (hhex _) (fun i hi => by simpa using Nat.find_min hsome hi) (Nat.find_spec hsome)
    refine ⟨Nat.find hsome + 1, by omega, hends, ?_⟩
    obtain ⟨result, drive', -, hsame⟩ := hends
    have hlimit := lt_searchLimit drive tokens
    rw [createTemp, Call.outcome_bind, Call.outcome_get]
    exact (hsame _ (by omega)).trans (hsame _ (Nat.le_refl _)).symm

/-! ### A crowded directory -/

/-- A drive on which the name with the first token is taken. -/
def crowded : Drive := ⟨"mem".toList, [([], .newDirectory 0), (["xa".toList], .newFile 0)], []⟩

/-- Tokens that become longer and longer. -/
def longerTokens : TokenSource := ⟨[], fun n => List.replicate (n + 1) 'a', 0⟩

theorem token_longerTokens (n : Nat) : longerTokens.token n = List.replicate (n + 1) 'a' := by
  simp [longerTokens, token]

theorem longerTokens_injective : Function.Injective longerTokens.token := by
  intro m n h
  have hlength := congrArg List.length h
  simpa [token_longerTokens] using hlength

theorem isHexadecimal_longerTokens (n : Nat) : IsHexadecimal (longerTokens.token n) := by
  rw [token_longerTokens]
  refine ⟨by simp, fun c hc => ?_⟩
  rw [List.eq_of_mem_replicate hc]
  decide

/-- A plain ending is found a name for, and so is one that leads back to a free place; one that leads back to the
root is not. -/
theorem searchEnds_crowded :
    (∃ n ≤ 3, SearchEnds crowded longerTokens 0 "mem:/x".toList [] n) ∧
      (∃ n ≤ 3, SearchEnds crowded longerTokens 0 "mem:/x".toList "/../b".toList n) ∧
      ∀ limit, (createTempWithin limit 0 "mem:/x".toList "/..".toList).outcome (crowded, longerTokens) =
        (.error .endless, crowded, longerTokens.advanced limit) := by
  refine ⟨?_, ?_, ?_⟩
  · obtain ⟨n, hn, hends, -⟩ :=
      (searchEnds_iff longerTokens_injective isHexadecimal_longerTokens 0 "mem:/x".toList []).1.mpr
        (by decide : ∀ key ∈ crowded.returnKey? "mem:/x".toList [], crowded.tree.has key = false)
    exact ⟨n, hn, hends⟩
  · obtain ⟨n, hn, hends, -⟩ :=
      (searchEnds_iff longerTokens_injective isHexadecimal_longerTokens 0 "mem:/x".toList "/../b".toList).1.mpr
        (by decide : ∀ key ∈ crowded.returnKey? "mem:/x".toList "/../b".toList, crowded.tree.has key = false)
    exact ⟨n, hn, hends⟩
  · exact (searchEnds_iff longerTokens_injective isHexadecimal_longerTokens 0 "mem:/x".toList "/..".toList).2
      [] rfl rfl

/-- Not every search for a fresh name ends after one more token than there are entries, or ever. -/
theorem not_forall_searchEnds :
    ¬ ∀ {drive : Drive} {tokens : TokenSource}, Reached drive → Function.Injective tokens.token →
      (∀ n, IsHexadecimal (tokens.token n)) → ∀ (now : Int) (start ending : Text),
        ∃ n ≤ drive.tree.length + 1, SearchEnds drive tokens now start ending n := by
  intro h
  have hreached : Reached (.fresh "mem".toList 0) := ⟨"mem".toList, 0, longerTokens, [], rfl⟩
  obtain ⟨n, -, result, drive', hends, hsame⟩ :=
    h hreached longerTokens_injective isHexadecimal_longerTokens 0 "mem:/".toList "/..".toList
  -- every candidate leads back to the root, which is never free
  have hused : ∀ i < n, (fresh "mem".toList 0).isUnused
      ((fresh "mem".toList 0).candidateText "mem:/".toList "/..".toList (longerTokens.token i)) = false := by
    intro i _
    have hreturn : (fresh "mem".toList 0).returnKey? "mem:/".toList "/..".toList = some [] := by decide
    rw [isUnused_candidateText _ _ _ (isHexadecimal_longerTokens i),
      ofText_candidateText_of_return hreturn (isHexadecimal_longerTokens i)]
    rfl
  have hendless := (hsame n (Nat.le_refl n)).symm.trans (outcome_createTempWithin_of_used 0 hused)
  exact hends (Prod.mk.inj hendless).1

end FileRouter.Drive
