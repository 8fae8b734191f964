import FileRouter.Proofs.Text
import FileRouter.Spec.Basic
/-!
The parameters of a query.

A query is read into the values of each key (`collected`), of which a spec keeps the first (`paramsOf_eq`). A pair of
plain texts is read as it stands (`paramsOf_pair`).
-/

namespace FileRouter

namespace Text

theorem octets_of_notMem {text : Text} (h : '%' ∉ text) : octets text = text.map plainOctet := by
  induction text with
  | nil => rfl
  | cons c rest ih =>
    rw [List.mem_cons, not_or] at h
    rw [octets, ih h.2, List.map_cons]
    exact fun _ _ _ hc _ => h.1 hc.symm

theorem run_plainOctets (text : Text) : Decoder.idle.run (text.map plainOctet) = text := by
  induction text with
  | nil => rfl
  | cons c rest ih =>
    rw [List.map_cons, plainOctet]
    split_ifs with hc
    · -- a character below 128 is one octet, and the idle decoder gives it back at once
      have hbyte : (UInt8.ofNat c.toNat).toNat = c.toNat := by
        rw [UInt8.toNat_ofNat']
        omega
      have hfeed : Decoder.idle.feed (UInt8.ofNat c.toNat) = ([c], Decoder.idle) := by
        have hidle : Decoder.idle.missing = 0 := rfl
        rw [Decoder.feed, if_pos hidle, Decoder.start, hbyte, if_pos hc, Char.ofNat_toNat]
      rw [Decoder.run, hfeed]
      simp only
      rw [ih, List.singleton_append]
    · rw [Decoder.run, ih]
      rfl

/-- A text without escapes and plus signs stands for itself. -/
theorem percentDecoded_of_notMem {text : Text} (hplus : '+' ∉ text) (hpercent : '%' ∉ text) :
    percentDecoded text = text := by
  have hmap : (text.map fun c => if c = '+' then ' ' else c) = text := by
    conv_rhs => rw [← List.map_id text]
    refine List.map_congr_left fun c hc => if_neg ?_
    rintro rfl
    exact hplus hc
  rw [percentDecoded, hmap, octets_of_notMem hpercent, run_plainOctets]

end Text

namespace Spec

variable {pairs : List (Text × Text)} {entries : List (Text × List Text)}

/-! ### Values by key -/

/-- Adds a value to those of its key, which comes last if it is new. -/
def addValue (pair : Text × Text) : List (Text × List Text) → List (Text × List Text)
  | [] => [(pair.1, [pair.2])]
  | entry :: entries =>
    if entry.1 = pair.1 then (entry.1, entry.2 ++ [pair.2]) :: entries else entry :: addValue pair entries

/-- The values of each key in order, and the keys in the order of their first values. -/
def collected (pairs : List (Text × Text)) : List (Text × List Text) :=
  pairs.foldl (fun entries pair => addValue pair entries) []

/-- Each key with its first value. -/
def firstValues (entries : List (Text × List Text)) : List (Text × Text) :=
  entries.filterMap fun entry => entry.2.head?.map fun value => (entry.1, value)

theorem collected_concat (pairs : List (Text × Text)) (pair : Text × Text) :
    collected (pairs ++ [pair]) = addValue pair (collected pairs) := by
  rw [collected, List.foldl_append]
  rfl

theorem values_ne_nil_addValue {pair : Text × Text} (h : ∀ entry ∈ entries, entry.2 ≠ []) :
    ∀ entry ∈ addValue pair entries, entry.2 ≠ [] := by
  induction entries with
  | nil =>
    intro entry hm
    rw [addValue, List.mem_singleton] at hm
    simp [hm]
  | cons first entries ih =>
    have hfirst := h first List.mem_cons_self
    have hrest : ∀ entry ∈ entries, entry.2 ≠ [] := fun entry hm => h entry (List.mem_cons_of_mem _ hm)
    rw [addValue]
    split_ifs
    · exact List.forall_mem_cons.mpr ⟨by simp, hrest⟩
    · exact List.forall_mem_cons.mpr ⟨hfirst, ih hrest⟩

/-- Every key that is collected has a value. -/
theorem values_ne_nil_collected (pairs : List (Text × Text)) : ∀ entry ∈ collected pairs, entry.2 ≠ [] := by
  induction pairs using List.reverseRecOn with
  | nil => simp [collected]
  | append_singleton pairs pair ih =>
    rw [collected_concat]
    exact values_ne_nil_addValue ih

/-- A further value of a key leaves the first values as they are; the value of a new key comes behind them. -/
theorem firstValues_addValue {pair : Text × Text} (h : ∀ entry ∈ entries, entry.2 ≠ []) :
    firstValues (addValue pair entries) =
      if pair.1 ∈ (firstValues entries).map Prod.fst then firstValues entries
      else firstValues entries ++ [pair] := by
  induction entries with
  | nil => rfl
  | cons first entries ih =>
    obtain ⟨key, values⟩ := first
    obtain ⟨value, values, rfl⟩ := List.exists_cons_of_ne_nil (h _ List.mem_cons_self)
    have hrest := ih fun entry hm => h entry (List.mem_cons_of_mem _ hm)
    have hcons : ∀ (values : List Text) (entries : List (Text × List Text)),
        firstValues ((key, value :: values) :: entries) = (key, value) :: firstValues entries := fun _ _ => rfl
    rw [addValue, hcons, List.map_cons]
    -- a value that is added to an entry comes behind its first one
    by_cases hkey : key = pair.1
    · rw [if_pos hkey, if_pos (hkey ▸ List.mem_cons_self), List.cons_append, hcons]
    · rw [if_neg hkey, hcons, hrest]
      by_cases hm : pair.1 ∈ (firstValues entries).map Prod.fst
      · rw [if_pos hm, if_pos (List.mem_cons_of_mem _ hm)]
      · rw [if_neg hm, if_neg (by simpa [Ne.symm hkey] using hm), List.cons_append]

theorem firstOfEach_concat (pairs : List (Text × Text)) (pair : Text × Text) :
    firstOfEach (pairs ++ [pair]) =
      if pair.1 ∈ (firstOfEach pairs).map Prod.fst then firstOfEach pairs else firstOfEach pairs ++ [pair] := by
  induction pairs with
  | nil => rfl
  | cons first pairs ih =>
    rw [List.cons_append, firstOfEach, ih, firstOfEach, List.map_cons]
    by_cases hkey : pair.1 = first.1
    · -- the new pair has the key of the first one, so filtering takes it out again
      have hout : [pair].filter (fun other => other.1 != first.1) = [] := by simp [hkey]
      have hmem : pair.1 ∈ first.1 :: ((firstOfEach pairs).filter fun other => other.1 != first.1).map Prod.fst :=
        hkey ▸ List.mem_cons_self
      rw [if_pos hmem]
      split_ifs
      · rfl
      · rw [List.filter_append, hout, List.append_nil]
    · -- otherwise it survives the filter, which does not decide whether its key occurs
      have hin : [pair].filter (fun other => other.1 != first.1) = [pair] := by simp [hkey]
      have hmem : pair.1 ∈ ((firstOfEach pairs).filter fun other => other.1 != first.1).map Prod.fst ↔
          pair.1 ∈ (firstOfEach pairs).map Prod.fst := by
        simp only [List.mem_map, List.mem_filter, bne_iff_ne, ne_eq]
        exact ⟨fun ⟨other, ⟨hm, _⟩, he⟩ => ⟨other, hm, he⟩, fun ⟨other, hm, he⟩ => ⟨other, ⟨hm, he ▸ hkey⟩, he⟩⟩
      by_cases hm : pair.1 ∈ (firstOfEach pairs).map Prod.fst
      · rw [if_pos hm, if_pos (List.mem_cons_of_mem _ (hmem.mpr hm))]
      · rw [if_neg hm, if_neg (List.not_mem_cons_of_ne_of_not_mem hkey (mt hmem.mp hm)), List.filter_append, hin,
          List.cons_append]

/-- **A spec keeps the first value of each key of its query.** -/
theorem paramsOf_eq (query : Text) : paramsOf query = firstValues (collected (Spec.pairs query)) := by
  rw [paramsOf]
  induction Spec.pairs query using List.reverseRecOn with
  | nil => rfl
  | append_singleton pairs pair ih =>
    rw [firstOfEach_concat, collected_concat, firstValues_addValue (values_ne_nil_collected pairs), ih]

/-- Among the first pairs of each key, a key is found where it is found among all. -/
theorem find?_firstOfEach (pairs : List (Text × Text)) (key : Text) :
    ((firstOfEach pairs).find? fun pair => pair.1 == key) = pairs.find? fun pair => pair.1 == key := by
  induction pairs with
  | nil => rfl
  | cons first pairs ih =>
    rw [firstOfEach, List.find?_cons, List.find?_cons]
    cases hfirst : first.1 == key with
    | true => rfl
    | false =>
      -- the pairs that are filtered out have the key of the first one, and so not `key`
      have hother : ∀ other : Text × Text, (other.1 != first.1 && other.1 == key) = (other.1 == key) := by
        intro other
        by_cases hkey : other.1 = key
        · simpa [hkey] using Ne.symm (by simpa using hfirst)
        · simp [hkey]
      simp only
      rw [List.find?_filter, ← ih]
      congr 1
      funext other
      rw [← Bool.and_eq_decide, hother]

theorem nodup_keys_firstOfEach (pairs : List (Text × Text)) : ((firstOfEach pairs).map Prod.fst).Nodup := by
  induction pairs with
  | nil => exact List.nodup_nil
  | cons first pairs ih =>
    rw [firstOfEach, List.map_cons, List.nodup_cons]
    refine ⟨fun hm => ?_, ih.sublist (List.filter_sublist.map _)⟩
    obtain ⟨other, ho, hsame⟩ := List.mem_map.mp hm
    simpa [hsame] using (List.mem_filter.mp ho).2

/-! ### Plain queries -/

/-- Whether a text stands for itself in a query: nothing in it ends a pair, or is decoded. -/
def IsLiteral (text : Text) : Prop := '&' ∉ text ∧ '+' ∉ text ∧ '%' ∉ text

/-- The query in which pairs are written. -/
def queryOf (pairs : List (Text × Text)) : Text :=
  Text.joined ['&'] (pairs.map fun pair => pair.1 ++ '=' :: pair.2)

/-- What is read of a plain pair. -/
theorem pair_read {key value : Text} (hequal : '=' ∉ key) (hkey : IsLiteral key) (hvalue : IsLiteral value) :
    (if (Text.after '=' (key ++ '=' :: value)).isEmpty then none
      else some (Text.percentDecoded (Text.before '=' (key ++ '=' :: value)),
        Text.percentDecoded (Text.after '=' (key ++ '=' :: value)))) =
      if value.isEmpty then none else some (key, value) := by
  rw [Text.before_append_cons hequal, Text.after_append_cons hequal, Text.percentDecoded_of_notMem hkey.2.1 hkey.2.2,
    Text.percentDecoded_of_notMem hvalue.2.1 hvalue.2.2]

/-- **Plain pairs are read as they stand**, but for those without a value, which are left out. -/
theorem pairs_queryOf (h : ∀ pair ∈ pairs, '=' ∉ pair.1 ∧ IsLiteral pair.1 ∧ IsLiteral pair.2) :
    Spec.pairs (queryOf pairs) = pairs.filter fun pair => !pair.2.isEmpty := by
  by_cases hne : pairs = []
  · subst hne
    rfl
  · -- no piece holds an `&`, so splitting there gives the pieces back
    have hpieces : ∀ piece ∈ pairs.map (fun pair => pair.1 ++ '=' :: pair.2), '&' ∉ piece := by
      intro piece hm
      obtain ⟨pair, hpair, rfl⟩ := List.mem_map.mp hm
      obtain ⟨-, hkey, hvalue⟩ := h pair hpair
      rw [List.mem_append, List.mem_cons, not_or, not_or]
      exact ⟨hkey.1, by decide, hvalue.1⟩
    rw [Spec.pairs, queryOf, Text.parts_joined hpieces (by simpa using hne), List.filterMap_map,
      ← List.filterMap_eq_filter]
    refine List.filterMap_congr fun pair hpair => ?_
    obtain ⟨hequal, hkey, hvalue⟩ := h pair hpair
    refine (pair_read hequal hkey hvalue).trans ?_
    cases hvalue : pair.2.isEmpty <;> simp [Option.guard, hvalue]

/-- A plain pair is read as it stands, and left out when it has no value. -/
theorem paramsOf_pair {key value : Text} (hand : '&' ∉ key) (hequal : '=' ∉ key) (hplus : '+' ∉ key)
    (hpercent : '%' ∉ key) (hand' : '&' ∉ value) (hplus' : '+' ∉ value) (hpercent' : '%' ∉ value) :
    paramsOf (key ++ '=' :: value) = if value.isEmpty then [] else [(key, value)] := by
  have hliteral : ∀ pair ∈ [(key, value)], '=' ∉ pair.1 ∧ IsLiteral pair.1 ∧ IsLiteral pair.2 := by
    intro pair hm
    obtain rfl := List.mem_singleton.mp hm
    exact ⟨hequal, ⟨hand, hplus, hpercent⟩, hand', hplus', hpercent'⟩
  have hpairs : Spec.pairs (key ++ '=' :: value) = [(key, value)].filter fun pair => !pair.2.isEmpty :=
    pairs_queryOf hliteral
  rw [paramsOf, hpairs]
  cases hvalue : value.isEmpty <;> simp [hvalue, firstOfEach]

end Spec

end FileRouter
