import FileRouter.Key
import FileRouter.Proofs.Text
/-!
Keys: names, paths and the order of a walk.

* `ofText_proper` and `ofText_toText`: every path is read as a key of proper names, and the path that
  is written for such a key is read as that key again.
* `prefix_iff_toText`: what is at or below a key can be told from the paths.
* `Key.before` is the order in which a walk leaves the entries of a tree, what is below an entry before
  the entry itself and siblings by the code points of their names. It is a strict order
  (`before_irrefl`, `before_trans`).
-/

namespace FileRouter.Key

/-! ### Proper keys -/

/-- A text that can be the name of an entry: it is not empty, has no slash in it, and is neither of the
two segments that stand for another directory. -/
structure IsName (name : Text) : Prop where
  ne_nil : name ≠ []
  no_slash : '/' ∉ name
  ne_here : name ≠ here
  ne_above : name ≠ above

/-- A key that consists of names. -/
def Proper (key : Key) : Prop := ∀ name ∈ key, IsName name

instance (name : Text) : Decidable (IsName name) :=
  decidable_of_iff (name ≠ [] ∧ '/' ∉ name ∧ name ≠ here ∧ name ≠ above)
    ⟨fun ⟨hne, hslash, hhere, habove⟩ => ⟨hne, hslash, hhere, habove⟩,
      fun h => ⟨h.ne_nil, h.no_slash, h.ne_here, h.ne_above⟩⟩

instance (key : Key) : Decidable key.Proper :=
  inferInstanceAs (Decidable (∀ name ∈ key, IsName name))

theorem proper_nil : Proper [] := by
  intro name h
  simp at h

theorem proper_singleton {name : Text} (h : IsName name) : Proper [name] := by
  intro other ho
  exact List.mem_singleton.mp ho ▸ h

theorem proper_append {key other : Key} : Proper (key ++ other) ↔ Proper key ∧ Proper other := by
  constructor
  · intro h
    exact ⟨fun name hn => h name (List.mem_append_left _ hn),
      fun name hn => h name (List.mem_append_right _ hn)⟩
  · rintro ⟨hk, ho⟩ name hn
    rcases List.mem_append.mp hn with hn | hn
    · exact hk name hn
    · exact ho name hn

theorem Proper.parent {key : Key} (h : key.Proper) : key.parent.Proper :=
  fun name hn => h name (List.dropLast_subset key hn)

theorem push_of_isName {name : Text} (h : IsName name) (key : Key) : push key name = key ++ [name] := by
  rw [push, if_neg (not_or.mpr ⟨h.ne_nil, h.ne_here⟩), if_neg h.ne_above]

theorem push_proper {key : Key} {segment : Text} (hk : key.Proper) (hs : '/' ∉ segment) :
    (push key segment).Proper := by
  rw [push]
  split
  next => exact hk
  next hne =>
    rw [not_or] at hne
    split
    next => exact hk.parent
    next habove =>
      refine proper_append.mpr ⟨hk, ?_⟩
      intro name hn
      rw [List.mem_singleton] at hn
      subst hn
      exact ⟨hne.1, hs, hne.2, habove⟩

theorem foldl_push_proper {segments : List Text} {key : Key} (hk : key.Proper)
    (hs : ∀ segment ∈ segments, '/' ∉ segment) : (segments.foldl push key).Proper := by
  induction segments generalizing key with
  | nil => exact hk
  | cons segment segments ih =>
    exact ih (push_proper hk (hs segment List.mem_cons_self))
      (fun other ho => hs other (List.mem_cons_of_mem _ ho))

/-- Every path is read as a key that consists of names. -/
theorem ofText_proper (path : Text) : (ofText path).Proper :=
  foldl_push_proper proper_nil fun _ h => Text.not_mem_of_mem_parts h

theorem foldl_push_names {names : List Text} (h : ∀ name ∈ names, IsName name) (key : Key) :
    names.foldl push key = key ++ names := by
  induction names generalizing key with
  | nil => simp
  | cons name names ih =>
    rw [List.foldl_cons, push_of_isName (h name List.mem_cons_self),
      ih (fun other ho => h other (List.mem_cons_of_mem _ ho)), List.append_assoc,
      List.singleton_append]

/-- Behind each slash of the path that is written for a key stands one of its names. -/
theorem parts_flatMap {names : List Text} (h : ∀ name ∈ names, '/' ∉ name) :
    Text.parts '/' (names.flatMap ('/' :: ·)) = [] :: names := by
  suffices hs : ∀ piece : Text, '/' ∉ piece →
      Text.parts '/' (piece ++ names.flatMap ('/' :: ·)) = piece :: names from hs [] (by simp)
  induction names with
  | nil =>
    intro piece hp
    rw [List.flatMap_nil, List.append_nil, Text.parts_of_not_mem hp]
  | cons name names ih =>
    intro piece hp
    rw [List.flatMap_cons, List.cons_append, Text.parts_append hp,
      ih (fun other ho => h other (List.mem_cons_of_mem _ ho)) name (h name List.mem_cons_self)]

theorem parts_toText {key : Key} (h : key.Proper) (hne : key ≠ []) : Text.parts '/' key.toText = [] :: key := by
  cases key with
  | nil => exact absurd rfl hne
  | cons first rest => exact parts_flatMap fun other ho => (h other ho).no_slash

theorem toText_append_singleton (key : Key) (name : Text) :
    toText (key ++ [name]) = (if key = [] then [] else key.toText) ++ '/' :: name := by
  cases key with
  | nil => simp [toText]
  | cons first rest => simp [toText]

/-- Only the path of the root ends in a slash. -/
theorem getLast?_toText {key : Key} (hkey : key.Proper) (hne : key ≠ []) : key.toText.getLast? ≠ some '/' := by
  obtain ⟨directory, name, rfl⟩ := (List.eq_nil_or_concat key).resolve_left hne
  have hname := hkey name (by simp)
  rw [List.concat_eq_append, toText_append_singleton, List.getLast?_append, List.getLast?_cons]
  cases hl : name.getLast? with
  | none => exact absurd (List.getLast?_eq_none_iff.mp hl) hname.ne_nil
  | some c =>
    rw [Option.getD_some, Option.some_or, ne_eq, Option.some.injEq]
    rintro rfl
    exact hname.no_slash (List.mem_of_getLast? hl)

/-- The path that is written for a key is read as that key. -/
theorem ofText_toText {key : Key} (h : key.Proper) : ofText key.toText = key := by
  cases key with
  | nil => decide
  | cons name names =>
    rw [toText, ofText, parts_flatMap (fun other ho => (h other ho).no_slash), List.foldl_cons,
      show push [] [] = [] from rfl, foldl_push_names h, List.nil_append]
    simp

/-- There is a slash in front of every name. -/
theorem length_le_count (key : Key) : key.length ≤ key.toText.count '/' := by
  have hnames : ∀ names : Key, names.length ≤ (names.flatMap ('/' :: ·)).count '/' := by
    intro names
    induction names with
    | nil => exact Nat.le_refl 0
    | cons name names ih =>
      rw [List.flatMap_cons, List.count_append, List.count_cons_self, List.length_cons]
      omega
  cases key with
  | nil => exact Nat.zero_le _
  | cons first rest => exact hnames (first :: rest)

theorem length_push_le (key : Key) (segment : Text) : (push key segment).length ≤ key.length + 1 := by
  rw [push]
  split_ifs
  · exact Nat.le_succ _
  · exact Nat.le_trans (List.dropLast_sublist key).length_le (Nat.le_succ _)
  · exact Nat.le_of_eq List.length_append

/-- Between the slashes of a path stands at most one name each. -/
theorem length_ofText_le (path : Text) : (ofText path).length ≤ path.count '/' + 1 := by
  -- every segment makes the key longer by at most one name
  have hfold : ∀ (segments : List Text) (key : Key), (segments.foldl push key).length ≤ key.length + segments.length := by
    intro segments
    induction segments with
    | nil => exact fun key => Nat.le_refl _
    | cons segment segments ih =>
      intro key
      have hstep := length_push_le key segment
      have hrest := ih (push key segment)
      rw [List.foldl_cons, List.length_cons]
      omega
  have hall := hfold (Text.parts '/' path) []
  rwa [Text.length_parts, List.length_nil, Nat.zero_add] at hall

/-! ### Paths that go on -/

/-- Slashes at the front of a path say nothing. -/
theorem ofText_dropLeading (path rest : Text) : ofText (Text.dropLeading '/' path ++ rest) = ofText (path ++ rest) := by
  induction path with
  | nil => rfl
  | cons c path ih =>
    rw [Text.dropLeading, List.dropWhile_cons]
    split_ifs with hc
    · obtain rfl : c = '/' := by simpa using hc
      rw [List.cons_append, ofText, ofText, Text.parts, if_pos rfl]
      exact ih
    · rfl

/-- What stands behind the last slash of a path goes on from what stands in front of it. -/
theorem ofText_beforeLast_append (path rest : Text) :
    ofText (Text.beforeLast '/' path ++ rest) =
      (Text.parts '/' rest).foldl push (ofText (Text.beforeLast '/' path)) := by
  rcases Text.beforeLast_eq '/' path with h | ⟨front, h⟩
  · rw [h]
    rfl
  · have hfront : ofText (front ++ ['/']) = ofText front := by
      rw [ofText, Text.parts_append_parts, List.foldl_append]
      rfl
    rw [h, hfront, List.append_assoc, List.singleton_append, ofText, Text.parts_append_parts, List.foldl_append, ofText]

/-- The segments that are left once segments have led above the place where they begin, if they ever do. A number
of names below that place are there to be taken back first. -/
def exit? : Nat → List Text → Option (List Text)
  | _, [] => none
  | depth, segment :: segments =>
    if segment = [] ∨ segment = here then exit? depth segments
    else if segment = above then if depth = 0 then some segments else exit? (depth - 1) segments
    else exit? (depth + 1) segments

/-- Segments that never lead above a place lead from there to where they lead from the root. -/
theorem foldl_push_of_stays {segments : List Text} {depth : Nat} (h : exit? depth segments = none) (key : Key)
    {below : Key} (hbelow : below.length = depth) :
    segments.foldl push (key ++ below) = key ++ segments.foldl push below := by
  induction segments generalizing depth below with
  | nil => rfl
  | cons segment segments ih =>
    rw [exit?] at h
    rw [List.foldl_cons, List.foldl_cons, push, push]
    split_ifs at h ⊢ with hnone habove hdepth
    · exact ih h hbelow
    · have hne : below ≠ [] := fun hnil => hdepth (by rw [← hbelow, hnil, List.length_nil])
      rw [List.dropLast_append_of_ne_nil hne]
      exact ih h (by rw [List.length_dropLast, hbelow])
    · rw [List.append_assoc]
      exact ih h (by rw [List.length_append, hbelow, List.length_singleton])

/-- Segments that lead above a name go on from the directory that the name is in. -/
theorem foldl_push_of_exit {segments later : List Text} {depth : Nat} (h : exit? depth segments = some later)
    (key : Key) {below : Key} (hbelow : below.length = depth + 1) :
    segments.foldl push (key ++ below) = later.foldl push key := by
  induction segments generalizing depth below with
  | nil => simp [exit?] at h
  | cons segment segments ih =>
    have hne : below ≠ [] := List.ne_nil_of_length_eq_add_one hbelow
    rw [exit?] at h
    rw [List.foldl_cons, push]
    split_ifs at h ⊢ with hnone habove hdepth
    · exact ih h hbelow
    · -- here the last name below `key` is taken off, and the later segments go on from `key`
      obtain ⟨name, rfl⟩ := List.length_eq_one_iff.mp (hdepth ▸ hbelow)
      rw [Option.some.inj h, List.dropLast_concat]
    · rw [List.dropLast_append_of_ne_nil hne]
      exact ih h (by rw [List.length_dropLast, hbelow]; omega)
    · rw [List.append_assoc]
      exact ih h (by rw [List.length_append, hbelow, List.length_singleton])

/-! ### Keys above and below each other -/

theorem isBelow_iff {key other : Key} : key.isBelow other = true ↔ other <+: key ∧ key ≠ other := by
  simp [isBelow, List.isPrefixOf_iff_prefix]

theorem isChildOf_iff {key other : Key} :
    key.isChildOf other = true ↔ ∃ name, key = other ++ [name] := by
  simp only [isChildOf, Bool.and_eq_true, beq_iff_eq, List.isPrefixOf_iff_prefix]
  constructor
  · rintro ⟨hlen, rest, rfl⟩
    rw [List.length_append] at hlen
    obtain ⟨name, rfl⟩ := List.length_eq_one_iff.mp (show rest.length = 1 by omega)
    exact ⟨name, rfl⟩
  · rintro ⟨name, rfl⟩
    exact ⟨by simp, List.prefix_append _ _⟩

@[simp] theorem parent_append_singleton (key : Key) (name : Text) : parent (key ++ [name]) = key := by
  simp [parent]

theorem parent_append {key : Key} (h : key ≠ []) (base : Key) : (base ++ key).parent = base ++ key.parent := by
  rw [parent, parent, List.dropLast_append_of_ne_nil h]

@[simp] theorem name_append_singleton (key : Key) (name : Text) : Key.name (key ++ [name]) = name := by
  simp [Key.name]

theorem getLast?_eq_name {key : Key} (h : key ≠ []) : key.getLast? = some key.name := by
  rw [Key.name, List.getLastD_eq_getLast?, List.getLast?_eq_some_getLast h, Option.getD_some]

theorem parent_append_name {key : Key} (h : key ≠ []) : key.parent ++ [key.name] = key :=
  List.dropLast_append_getLast? _ (getLast?_eq_name h)

/-! ### Paths below a path -/

section Paths

variable {source key : Key}

theorem toText_of_ne_nil (h : key ≠ []) : key.toText = key.flatMap ('/' :: ·) := by
  cases key with
  | nil => exact absurd rfl h
  | cons name names => rfl

theorem toText_append (h : source ≠ []) (rest : Key) :
    (source ++ rest).toText = source.toText ++ rest.flatMap ('/' :: ·) := by
  rw [toText_of_ne_nil h, toText_of_ne_nil (by simp [h]), List.flatMap_append]

/-- A key is at or below another when its path is that of the other, or has a slash behind it. -/
theorem prefix_iff_toText (hs : source.Proper) (hk : key.Proper) (hne : source ≠ []) :
    source <+: key ↔ key.toText = source.toText ∨ source.toText ++ ['/'] <+: key.toText := by
  constructor
  · rintro ⟨rest, rfl⟩
    rw [toText_append hne]
    cases rest with
    | nil => exact .inl (by simp)
    | cons name rest => exact .inr ⟨name ++ rest.flatMap ('/' :: ·), by simp⟩
  · rintro (he | ⟨rest, hrest⟩)
    · obtain rfl : source = key := by rw [← ofText_toText hs, ← ofText_toText hk, he]
      exact List.prefix_refl _
    · have hcut : Text.parts '/' key.toText = ([] :: source) ++ Text.parts '/' rest := by
        rw [← hrest, List.append_assoc, List.singleton_append, Text.parts_append_parts, parts_toText hs hne]
      by_cases hroot : key = []
      · -- the path of the root has only one slash
        have hlength := congrArg List.length hcut
        have hpieces := List.length_pos_of_ne_nil (Text.parts_ne_nil '/' rest)
        have hsource := List.length_pos_of_ne_nil hne
        rw [hroot, show Text.parts '/' (toText []) = [[], []] from rfl, List.length_append] at hlength
        simp only [List.length_cons, List.length_nil] at hlength
        omega
      · rw [parts_toText hk hroot, List.cons_append, List.cons.injEq] at hcut
        exact ⟨_, hcut.2.symm⟩

/-- A name that only begins like that of a key does not stand at or below it. -/
theorem not_prefix_of_longer_name {suffix : Text} (hs : source ≠ []) (hsuffix : suffix ≠ []) (rest : Key) :
    ¬ source <+: source.parent ++ (source.name ++ suffix) :: rest := by
  intro h
  rw [← parent_append_name hs, parent_append_singleton, name_append_singleton, List.prefix_append_right_inj,
    List.cons_prefix_cons] at h
  exact hsuffix (List.append_right_eq_self.mp h.1.symm)

end Paths

/-! ### The order of a walk -/

/-- Whether a walk leaves the first key before the second: it lies below it, or it lies below an earlier
sibling of a key the second is or lies below. -/
def before : Key → Key → Bool
  | [], _ => false
  | _ :: _, [] => true
  | a :: as, b :: bs => if a = b then before as bs else Text.le a b

@[simp] theorem before_irrefl (key : Key) : before key key = false := by
  induction key with
  | nil => rfl
  | cons name key ih => rw [before, if_pos rfl, ih]

theorem before_trans {a b c : Key} (hab : before a b = true) (hbc : before b c = true) :
    before a c = true := by
  induction a generalizing b c with
  | nil => simp [before] at hab
  | cons x a ih =>
    cases b with
    | nil => simp [before] at hbc
    | cons y b =>
      cases c with
      | nil => rfl
      | cons z c =>
        rw [before] at hab hbc ⊢
        -- the first names decide, unless they agree
        by_cases hxy : x = y
        · subst hxy
          rw [if_pos rfl] at hab
          by_cases hxz : x = z
          · rw [if_pos hxz] at hbc ⊢
            exact ih hab hbc
          · rw [if_neg hxz] at hbc ⊢
            exact hbc
        · rw [if_neg hxy] at hab
          by_cases hyz : y = z
          · rw [if_neg (hyz ▸ hxy)]
            exact hyz ▸ hab
          · rw [if_neg hyz] at hbc
            by_cases hxz : x = z
            · exact absurd (Text.le_antisymm hab (hxz ▸ hbc)) hxy
            · rw [if_neg hxz]
              exact Text.le_trans hab hbc

theorem before_asymm {a b : Key} (h : before a b = true) : before b a = false := by
  by_contra hba
  have := before_trans h (by simpa using hba)
  simp at this

/-- Below one key the order is that of what follows it. -/
@[simp] theorem before_append_left (key a b : Key) : before (key ++ a) (key ++ b) = before a b := by
  induction key with
  | nil => rfl
  | cons name key ih => rw [List.cons_append, List.cons_append, before, if_pos rfl, ih]

/-- What lies below a key comes before it. -/
theorem before_of_isBelow {key other : Key} (h : key.isBelow other = true) :
    before key other = true := by
  obtain ⟨⟨rest, rfl⟩, hne⟩ := isBelow_iff.mp h
  cases rest with
  | nil => exact absurd (List.append_nil other) hne
  | cons name rest =>
    have := before_append_left other (name :: rest) []
    rw [List.append_nil] at this
    rw [this]
    rfl

/-- What is at or below an earlier sibling comes before what is at or below a later one. -/
theorem before_of_sibling {key : Key} {a b : Text} (hne : a ≠ b) (hle : Text.le a b = true)
    (as bs : Key) : before (key ++ a :: as) (key ++ b :: bs) = true := by
  rw [before_append_left, before, if_neg hne, hle]

end FileRouter.Key
