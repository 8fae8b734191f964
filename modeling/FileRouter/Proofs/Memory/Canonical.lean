import FileRouter.Proofs.Memory.Listing
/-!
The canonical paths of a drive.

A path is read from left to right (`Key.Reads`): empty segments and `.` are dropped, `..` takes the last name back if
there is one, and every other segment is kept. The canonical path has the names that are kept (`canonicalPath_normal`).
That is also what comes of the usual algorithm by which paths are normalised (`Key.normalised_of_slash`), which counts
leading slashes and keeps the `..` that a path not read from the root begins with.
-/

namespace FileRouter

namespace Key

variable {rest segment : Text} {kept key : Key} {segments : List Text}

/-! ### Normalised paths -/

/-- The segments that are kept, with one more. Where a path is not read from the root, `..` stays where there is nothing
to take back. -/
def keep (rooted : Bool) (kept : Key) (segment : Text) : Key :=
  if segment = [] ∨ segment = here then kept
  else if segment ≠ above ∨ (rooted = false ∧ kept = []) ∨ kept.getLast? = some above then kept ++ [segment]
  else kept.dropLast

/-- The number of slashes that a normalised path begins with: two stay two, but more are as good as one. -/
def leadingSlashes (path : Text) : Nat :=
  if path.head? = some '/' then
    if path.take 2 = ['/', '/'] ∧ path.take 3 ≠ ['/', '/', '/'] then 2 else 1
  else 0

/-- A path without empty segments, `.`, and `..` behind a segment that it takes back. -/
def normalised (path : Text) : Text :=
  if path = [] then here
  else
    let slashes := leadingSlashes path
    let kept := (Text.parts '/' path).foldl (keep (slashes != 0)) []
    let text := List.replicate slashes '/' ++ Text.joined ['/'] kept
    if text = [] then here else text

/-- Read from the root, no segment is kept that leads above. -/
theorem foldl_keep (habove : above ∉ kept) : segments.foldl (keep true) kept = segments.foldl push kept := by
  induction segments generalizing kept with
  | nil => rfl
  | cons segment segments ih =>
    have hstep : keep true kept segment = push kept segment := by
      have hlast : kept.getLast? ≠ some above := fun h => habove (List.mem_of_getLast? h)
      rw [keep, push]
      split_ifs <;> simp_all
    -- a name that is kept is not the one for above, so this goes on to the next segment
    have hnext : above ∉ push kept segment := by
      rw [push]
      split_ifs with hnone hup
      · exact habove
      · exact fun hm => habove (List.mem_of_mem_dropLast hm)
      · rw [List.mem_append, List.mem_singleton, not_or]
        exact ⟨habove, fun he => hup he.symm⟩
    rw [List.foldl_cons, List.foldl_cons, hstep, ih hnext]

theorem toText_eq_joined (key : Key) : key.toText = '/' :: Text.joined ['/'] key := by
  cases key with
  | nil => rfl
  | cons name names =>
    rw [toText_of_ne_nil (List.cons_ne_nil _ _)]
    induction names generalizing name with
    | nil => simp [Text.joined]
    | cons next names ih =>
      rw [List.flatMap_cons, ih, Text.joined_cons_cons, List.append_assoc, List.singleton_append, List.cons_append]

/-- With one slash in front, what is normalised is the path of a key. -/
theorem normalised_of_slash (h : rest.head? ≠ some '/') : normalised ('/' :: rest) = (ofText rest).toText := by
  have hone : leadingSlashes ('/' :: rest) = 1 := by
    have htwo : ('/' :: rest).take 2 ≠ ['/', '/'] := by
      cases rest with
      | nil => decide
      | cons c rest => simpa using h
    rw [leadingSlashes, if_pos List.head?_cons, if_neg fun hboth => htwo hboth.1]
  have hkept : (Text.parts '/' ('/' :: rest)).foldl (keep true) [] = ofText rest := by
    rw [foldl_keep List.not_mem_nil, Text.parts, if_pos rfl]
    rfl
  rw [normalised, if_neg (List.cons_ne_nil _ _), hone]
  simp only [Nat.reduceBNe, hkept, List.replicate_one, List.singleton_append, toText_eq_joined, List.cons_ne_nil, if_false]

/-! ### Reading -/

/-- What is kept when segments are read from left to right behind those that are kept already. -/
inductive Reads : Key → List Text → Key → Prop
  | done {kept : Key} : Reads kept [] kept
  | skip {kept key : Key} {segment : Text} {segments : List Text} : segment = [] ∨ segment = here →
      Reads kept segments key → Reads kept (segment :: segments) key
  | back {kept key : Key} {segments : List Text} :
      Reads kept.dropLast segments key → Reads kept (above :: segments) key
  | keep {kept key : Key} {segment : Text} {segments : List Text} : segment ≠ [] → segment ≠ here → segment ≠ above →
      Reads (kept ++ [segment]) segments key → Reads kept (segment :: segments) key

/-- Segments can be read in one way only, which is the one by which paths are understood. -/
theorem reads_iff : Reads kept segments key ↔ key = segments.foldl push kept := by
  constructor
  · intro h
    -- each rule is one branch of a push, and each branch is a rule
    induction h with
    | done => rfl
    | skip hnone _ ih => rw [ih, List.foldl_cons, push, if_pos hnone]
    | back _ ih => rw [ih, List.foldl_cons, push, if_neg (by decide), if_pos rfl]
    | keep hne hhere habove _ ih =>
      rw [ih, List.foldl_cons, push, if_neg (not_or.mpr ⟨hne, hhere⟩), if_neg habove]
  · rintro rfl
    induction segments generalizing kept with
    | nil => exact .done
    | cons segment segments ih =>
      rw [List.foldl_cons, push]
      split_ifs with hnone habove
      · exact .skip hnone ih
      · exact habove ▸ .back ih
      · rw [not_or] at hnone
        exact .keep hnone.1 hnone.2 habove ih

/-- Segments that name nothing lead from the root to the root. -/
theorem ofText_append_of_nameless {ups : List Text} (h : ∀ up ∈ ups, up = [] ∨ up = here ∨ up = above) (rest : Text) :
    ofText (ups.flatMap (· ++ ['/']) ++ rest) = ofText rest := by
  induction ups with
  | nil => rfl
  | cons up ups ih =>
    have hup := h up List.mem_cons_self
    have hslash : '/' ∉ up := by rcases hup with rfl | rfl | rfl <;> decide
    have hroot : push [] up = [] := by rcases hup with rfl | rfl | rfl <;> rfl
    rw [List.flatMap_cons, List.append_assoc, List.append_assoc, List.singleton_append, ofText, Text.parts_append hslash,
      List.foldl_cons, hroot]
    exact ih fun other ho => h other (List.mem_cons_of_mem _ ho)

theorem ofText_append_name {name : Text} (h : IsName name) (path : Text) :
    ofText (path ++ '/' :: name) = ofText path ++ [name] := by
  rw [ofText, Text.parts_append_parts, Text.parts_of_not_mem h.no_slash, List.foldl_append, ofText]
  exact push_of_isName h _

end Key

namespace Drive

variable {s : Drive × TokenSource}

/-- A path has the canonical path of the key that it is read as: the scheme, a colon, a slash, and the names of the key
with slashes between them. -/
theorem answers_canonicalPath_of_keyOf {path : Text} {key : Key} (h : s.1.keyOf path = key) :
    Answers s (.canonicalPath path) (Scheme.join s.1.scheme ('/' :: Text.joined ['/'] key)) := by
  rw [← Key.toText_eq_joined, ← h]
  exact answers_canonicalPath s path

/-- **Canonical paths are a normal form.** The canonical path of any path has the names that reading the path from left to
right keeps, which is the path that the usual algorithm gives; all of them are proper names. It is its own canonical path;
what leads upwards at the front of a path changes nothing; and a name behind a path is the last one behind its canonical
path, which is the parent. -/
theorem canonicalPath_normal (hv : Scheme.isValid s.1.scheme = true) (path : Text) :
    let rest := Scheme.strip path s.1.scheme
    let canonical := fun key : Key => Scheme.join s.1.scheme ('/' :: Text.joined ['/'] key)
    ∃ key : Key, Key.Reads [] (Text.parts '/' rest) key ∧ Answers s (.canonicalPath path) (canonical key) ∧
      '/' :: Text.joined ['/'] key = Key.normalised ('/' :: Text.dropLeading '/' rest) ∧
      key.Proper ∧ (key ≠ [] → Text.parts '/' ('/' :: Text.joined ['/'] key) = [] :: key) ∧
      Answers s (.canonicalPath (canonical key)) (canonical key) ∧
      (∀ ups : List Text, (∀ up ∈ ups, up = [] ∨ up = Key.here ∨ up = Key.above) →
        Answers s (.canonicalPath (Scheme.join s.1.scheme (ups.flatMap (· ++ ['/']) ++ rest))) (canonical key)) ∧
      ∀ name, Key.IsName name →
        Answers s (.canonicalPath (path ++ '/' :: name)) (canonical (key ++ [name])) ∧
        Answers s (.parent (path ++ '/' :: name)) (some (canonical key)) ∧
        Answers s (.name (path ++ '/' :: name)) name := by
  intro rest canonical
  have hne := Scheme.ne_nil_of_isValid hv
  have hproper := s.1.keyOf_proper path
  have hpath : ∀ key : Key, s.1.pathOf key = canonical key := fun key => by
    rw [pathOf, Key.toText_eq_joined]
  have hhead : (Text.dropLeading '/' rest).head? ≠ some '/' := by
    have hnot := List.head?_dropWhile_not (· == '/') rest
    intro h
    rw [Text.dropLeading] at h
    simp [h] at hnot
  -- a canonical path is told by its key, so each part asks for the key of another path
  refine ⟨s.1.keyOf path, Key.reads_iff.mpr rfl, answers_canonicalPath_of_keyOf rfl, ?_, hproper, fun hroot => ?_, ?_,
    fun ups hups => ?_, fun name hname => ?_⟩
  · have hkey : Key.ofText (Text.dropLeading '/' rest) = s.1.keyOf path := by
      have hleading := Key.ofText_dropLeading rest []
      rwa [List.append_nil, List.append_nil] at hleading
    rw [Key.normalised_of_slash hhead, hkey, Key.toText_eq_joined]
  · rw [← Key.toText_eq_joined, Key.parts_toText hproper hroot]
  · refine answers_canonicalPath_of_keyOf ?_
    rw [← hpath, keyOf_pathOf hne hproper]
  · refine answers_canonicalPath_of_keyOf ?_
    rw [keyOf, Scheme.strip_join hne, Key.ofText_append_of_nameless hups, keyOf]
  · have hkey : s.1.keyOf (path ++ '/' :: name) = s.1.keyOf path ++ [name] := by
      rw [keyOf, Scheme.strip_append_slash (Scheme.slash_notMem_of_isValid hv), Key.ofText_append_name hname, keyOf]
    refine ⟨answers_canonicalPath_of_keyOf hkey, answers_parent_iff.mpr ⟨by simp [hkey], ?_⟩, ?_⟩
    · rw [hkey, Key.parent_append_singleton, hpath]
    · have hanswer := answers_name s (path ++ '/' :: name)
      rwa [hkey, Key.name_append_singleton] at hanswer

/-- A path that leads above the root, with empty segments and another scheme in it, and the child of a name behind it. -/
theorem canonicalPath_normal_dotted :
    let s : Drive × TokenSource := (.fresh "mem".toList 0, .counting [])
    let path := "mem:../a//./mem:x/../b/".toList
    Scheme.isValid s.1.scheme = true ∧ Answers s (.canonicalPath "mem:/a/b".toList) "mem:/a/b".toList ∧
      Answers s (.parent (path ++ '/' :: ['c'])) (some "mem:/a/b".toList) := by
  intro s path
  have hv : Scheme.isValid s.1.scheme = true := by decide
  obtain ⟨key, -, hcanonical, -, -, -, hself, -, hchild⟩ := canonicalPath_normal (s := s) hv path
  have hnormal : Answers s (.canonicalPath path) "mem:/a/b".toList := fun _ => rfl
  have hsame := hcanonical.unique hnormal
  rw [hsame] at hself hchild
  exact ⟨hv, hself, (hchild ['c'] (by decide)).2.1⟩

end Drive

end FileRouter
