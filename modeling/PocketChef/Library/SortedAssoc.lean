import Mathlib.Data.List.Find
import Mathlib.Data.List.Pairwise
import Mathlib.Data.List.Sort

/-!
# Sorted association lists

A finite map from keys to values is the list of its entries in the order of a
comparator, which may call different keys equal.  `select` keeps the entries
whose keys lie on given sides of a key; inserting, erasing and the ranges of
an enumeration are made of it.

The lemmas about `left ++ entry :: right` say on which side of an entry an
operation takes place.  They are what a search tree needs, whose entries are
those of its left subtree, its own and those of its right subtree.
-/

namespace SortedAssoc

universe u v

variable {Key : Type u} {Value : Type v}

def Sorted (cmp : Key → Key → Ordering) (entries : List (Key × Value)) :
    Prop :=
  entries.Pairwise fun first second => cmp first.1 second.1 = .lt

theorem sorted_pair {cmp : Key → Key → Ordering} {first second : Key × Value}
    (less : cmp first.1 second.1 = .lt) : Sorted cmp [first, second] :=
  List.pairwise_pair.mpr less

/-- The entries whose keys compare to `key` in a way that is kept. -/
def select (cmp : Key → Key → Ordering) (kept : Ordering → Bool) (key : Key)
    (entries : List (Key × Value)) : List (Key × Value) :=
  entries.filter fun entry => kept (cmp entry.1 key)

/-- The entry stands between the smaller and the larger ones, in place of one
with the same key. -/
def insert (cmp : Key → Key → Ordering) (key : Key) (value : Value)
    (entries : List (Key × Value)) : List (Key × Value) :=
  select cmp Ordering.isLT key entries ++
    (key, value) :: select cmp Ordering.isGT key entries

def erase (cmp : Key → Key → Ordering) (key : Key)
    (entries : List (Key × Value)) : List (Key × Value) :=
  select cmp Ordering.isNe key entries

/-- The entry under a key that compares equal. -/
def entryAt (cmp : Key → Key → Ordering) (key : Key)
    (entries : List (Key × Value)) : Option (Key × Value) :=
  entries.find? fun entry => (cmp key entry.1).isEq

def lookup (cmp : Key → Key → Ordering) (key : Key)
    (entries : List (Key × Value)) : Option Value :=
  (entryAt cmp key entries).map Prod.snd

/-- The key that compares equal and has an entry, if there is one. -/
def storedKey (cmp : Key → Key → Ordering) (key : Key)
    (entries : List (Key × Value)) : Key :=
  ((entryAt cmp key entries).map Prod.fst).getD key

/-- The greatest smaller key, for a key that has an entry. -/
def predecessor (cmp : Key → Key → Ordering) (key : Key)
    (entries : List (Key × Value)) : Option (Option Key) :=
  (lookup cmp key entries).map fun _ =>
    (select cmp Ordering.isLT key entries).getLast?.map Prod.fst

variable {cmp : Key → Key → Ordering}
variable {left right entries : List (Key × Value)} {entry : Key × Value}
variable {key : Key} {value : Value} {kept : Ordering → Bool}

/-! ## Sorted lists around an entry -/

theorem Sorted.of_left (sorted : Sorted cmp (left ++ entry :: right)) :
    Sorted cmp left :=
  (List.pairwise_append.mp sorted).1

theorem Sorted.of_right (sorted : Sorted cmp (left ++ entry :: right)) :
    Sorted cmp right :=
  (List.pairwise_cons.mp (List.pairwise_append.mp sorted).2.1).2

theorem Sorted.lt_of_left (sorted : Sorted cmp (left ++ entry :: right))
    {other : Key × Value} (member : other ∈ left) :
    cmp other.1 entry.1 = .lt :=
  (List.pairwise_append.mp sorted).2.2 other member entry
    List.mem_cons_self

theorem Sorted.lt_of_right (sorted : Sorted cmp (left ++ entry :: right))
    {other : Key × Value} (member : other ∈ right) :
    cmp entry.1 other.1 = .lt :=
  (List.pairwise_cons.mp (List.pairwise_append.mp sorted).2.1).1 other member

theorem Sorted.select (sorted : Sorted cmp entries)
    (kept : Ordering → Bool) (key : Key) :
    Sorted cmp (select cmp kept key entries) :=
  List.Pairwise.filter _ sorted

theorem Sorted.erase (sorted : Sorted cmp entries) (key : Key) :
    Sorted cmp (erase cmp key entries) :=
  sorted.select Ordering.isNe key

theorem mem_select {other : Key × Value} :
    other ∈ select cmp kept key entries ↔
      other ∈ entries ∧ kept (cmp other.1 key) = true :=
  List.mem_filter

/-- An insertion brings in its own entry only. -/
theorem of_mem_insert {entry : Key × Value} {key : Key} {value : Value}
    (member : entry ∈ insert cmp key value entries) :
    entry = (key, value) ∨ entry ∈ entries := by
  rcases List.mem_append.mp member with smaller | later
  · exact Or.inr (mem_select.mp smaller).1
  · rcases List.mem_cons.mp later with same | larger
    · exact Or.inl same
    · exact Or.inr (mem_select.mp larger).1

theorem select_append (first second : List (Key × Value)) :
    select cmp kept key (first ++ second) =
      select cmp kept key first ++ select cmp kept key second :=
  List.filter_append ..

/-- Entries that all lie on one side of a key are kept together. -/
theorem select_of_all {side : Ordering}
    (all : ∀ other ∈ entries, cmp other.1 key = side) :
    select cmp kept key entries = if kept side then entries else [] := by
  split
  · next keeps =>
    refine List.filter_eq_self.mpr ?_
    intro other member
    rw [all other member, keeps]
  · next drops =>
    refine List.filter_eq_nil_iff.mpr ?_
    intro other member
    rw [all other member]
    exact drops

theorem entryAt_eq_none_iff :
    entryAt cmp key entries = none ↔
      ∀ other ∈ entries, cmp key other.1 ≠ .eq := by
  rw [entryAt, List.find?_eq_none]
  refine forall_congr' fun other => forall_congr' fun _ => ?_
  rw [Ordering.isEq_iff_eq_eq]

/-- What is found compares equal and is an entry. -/
theorem of_entryAt {found : Key × Value}
    (here : entryAt cmp key entries = some found) :
    cmp key found.1 = .eq ∧ found ∈ entries := by
  refine ⟨?_, List.mem_of_find?_eq_some here⟩
  simpa using List.find?_some here

theorem lookup_eq_none (absent : ∀ other ∈ entries, cmp key other.1 ≠ .eq) :
    lookup cmp key entries = none := by
  rw [lookup, Option.map_eq_none_iff, entryAt_eq_none_iff]
  exact absent

variable [Std.TransCmp cmp]

theorem Sorted.middle (leftSorted : Sorted cmp left)
    (rightSorted : Sorted cmp right)
    (below : ∀ other ∈ left, cmp other.1 entry.1 = .lt)
    (above : ∀ other ∈ right, cmp entry.1 other.1 = .lt) :
    Sorted cmp (left ++ entry :: right) := by
  refine List.pairwise_append.mpr ⟨leftSorted, ?_, ?_⟩
  · exact List.pairwise_cons.mpr ⟨above, rightSorted⟩
  · intro smaller member larger later
    rcases List.mem_cons.mp later with rfl | beyond
    · exact below smaller member
    · exact Std.TransCmp.lt_trans (below smaller member) (above larger beyond)

theorem Sorted.insert (sorted : Sorted cmp entries) (key : Key)
    (value : Value) : Sorted cmp (insert cmp key value entries) := by
  refine Sorted.middle (sorted.select _ key) (sorted.select _ key) ?_ ?_
  · intro other member
    exact Ordering.isLT_iff_eq_lt.mp (mem_select.mp member).2
  · intro other member
    refine Std.OrientedCmp.lt_of_gt ?_
    exact Ordering.isGT_iff_eq_gt.mp (mem_select.mp member).2

/-! ## On which side of an entry -/

theorem select_left (sorted : Sorted cmp (left ++ entry :: right))
    (smaller : cmp key entry.1 = .lt) :
    select cmp kept key (left ++ entry :: right) =
      select cmp kept key left ++
        if kept .gt then entry :: right else [] := by
  have beyond : ∀ other ∈ entry :: right, cmp other.1 key = .gt := by
    intro other member
    refine Std.OrientedCmp.gt_of_lt ?_
    rcases List.mem_cons.mp member with rfl | later
    · exact smaller
    · exact Std.TransCmp.lt_trans smaller (sorted.lt_of_right later)
  rw [select_append, select_of_all beyond]

theorem select_right (sorted : Sorted cmp (left ++ entry :: right))
    (larger : cmp key entry.1 = .gt) :
    select cmp kept key (left ++ entry :: right) =
      (if kept .lt then left ++ [entry] else []) ++
        select cmp kept key right := by
  have less : cmp entry.1 key = .lt := Std.OrientedCmp.lt_of_gt larger
  have smaller : ∀ other ∈ left ++ [entry], cmp other.1 key = .lt := by
    intro other member
    rcases List.mem_append.mp member with earlier | last
    · exact Std.TransCmp.lt_trans (sorted.lt_of_left earlier) less
    · rw [List.mem_singleton.mp last]
      exact less
  rw [List.append_cons, select_append, select_of_all smaller]

theorem select_same (sorted : Sorted cmp (left ++ entry :: right))
    (same : cmp key entry.1 = .eq) :
    select cmp kept key (left ++ entry :: right) =
      (if kept .lt then left else []) ++ (if kept .eq then [entry] else []) ++
        if kept .gt then right else [] := by
  have smaller : ∀ other ∈ left, cmp other.1 key = .lt := by
    intro other member
    rw [Std.TransCmp.congr_right same]
    exact sorted.lt_of_left member
  have equal : ∀ other ∈ [entry], cmp other.1 key = .eq := by
    intro other member
    rw [List.mem_singleton.mp member]
    exact Std.OrientedCmp.eq_symm same
  have larger : ∀ other ∈ right, cmp other.1 key = .gt := by
    intro other member
    refine Std.OrientedCmp.gt_of_lt ?_
    rw [Std.TransCmp.congr_left same]
    exact sorted.lt_of_right member
  rw [List.append_cons, select_append, select_append, select_of_all smaller,
    select_of_all equal, select_of_all larger]

theorem insert_left (sorted : Sorted cmp (left ++ entry :: right))
    (smaller : cmp key entry.1 = .lt) :
    insert cmp key value (left ++ entry :: right) =
      insert cmp key value left ++ entry :: right := by
  rw [insert, insert, select_left sorted smaller, select_left sorted smaller]
  simp [Ordering.isLT, Ordering.isGT]

theorem insert_right (sorted : Sorted cmp (left ++ entry :: right))
    (larger : cmp key entry.1 = .gt) :
    insert cmp key value (left ++ entry :: right) =
      left ++ entry :: insert cmp key value right := by
  rw [insert, insert, select_right sorted larger, select_right sorted larger]
  simp [Ordering.isLT, Ordering.isGT]

/-- The new key takes the place of the one that compares equal to it. -/
theorem insert_same (sorted : Sorted cmp (left ++ entry :: right))
    (same : cmp key entry.1 = .eq) :
    insert cmp key value (left ++ entry :: right) =
      left ++ (key, value) :: right := by
  rw [insert, select_same sorted same, select_same sorted same]
  simp [Ordering.isLT, Ordering.isGT]

theorem erase_absent (absent : ∀ other ∈ entries, cmp key other.1 ≠ .eq) :
    erase cmp key entries = entries := by
  refine List.filter_eq_self.mpr ?_
  intro other member
  rw [Ordering.isNe_iff_ne_eq]
  exact fun same => absent other member (Std.OrientedCmp.eq_symm same)

theorem erase_left (sorted : Sorted cmp (left ++ entry :: right))
    (smaller : cmp key entry.1 = .lt) :
    erase cmp key (left ++ entry :: right) =
      erase cmp key left ++ entry :: right :=
  select_left sorted smaller

theorem erase_right (sorted : Sorted cmp (left ++ entry :: right))
    (larger : cmp key entry.1 = .gt) :
    erase cmp key (left ++ entry :: right) =
      left ++ entry :: erase cmp key right := by
  rw [erase, select_right sorted larger, if_pos (by rfl), List.append_assoc]
  rfl

theorem erase_same (sorted : Sorted cmp (left ++ entry :: right))
    (same : cmp key entry.1 = .eq) :
    erase cmp key (left ++ entry :: right) = left ++ right := by
  rw [erase, select_same sorted same]
  simp [Ordering.isNe]

/-! ## Looking up -/

theorem entryAt_left (sorted : Sorted cmp (left ++ entry :: right))
    (smaller : cmp key entry.1 = .lt) :
    entryAt cmp key (left ++ entry :: right) = entryAt cmp key left := by
  have beyond : (entry :: right).find?
      (fun other => (cmp key other.1).isEq) = none := by
    rw [List.find?_eq_none]
    intro other member same
    have less : cmp key other.1 = .lt := by
      rcases List.mem_cons.mp member with rfl | later
      · exact smaller
      · exact Std.TransCmp.lt_trans smaller (sorted.lt_of_right later)
    rw [less] at same
    cases same
  rw [entryAt, entryAt, List.find?_append, beyond, Option.or_none]

theorem entryAt_right (sorted : Sorted cmp (left ++ entry :: right))
    (larger : cmp key entry.1 = .gt) :
    entryAt cmp key (left ++ entry :: right) = entryAt cmp key right := by
  have before : left.find? (fun other => (cmp key other.1).isEq) = none := by
    rw [List.find?_eq_none]
    intro other member same
    have greater : cmp key other.1 = .gt :=
      Std.TransCmp.gt_trans larger
        (Std.OrientedCmp.gt_of_lt (sorted.lt_of_left member))
    rw [greater] at same
    cases same
  rw [entryAt, entryAt, List.find?_append, before, Option.none_or,
    List.find?_cons_of_neg (by rw [larger]; decide)]

theorem entryAt_same (sorted : Sorted cmp (left ++ entry :: right))
    (same : cmp key entry.1 = .eq) :
    entryAt cmp key (left ++ entry :: right) = some entry := by
  have before : left.find? (fun other => (cmp key other.1).isEq) = none := by
    rw [List.find?_eq_none]
    intro other member equal
    have less := sorted.lt_of_left member
    rw [← Std.TransCmp.congr_right same,
      Std.OrientedCmp.eq_symm (Ordering.isEq_iff_eq_eq.mp equal)] at less
    cases less
  rw [entryAt, List.find?_append, before, Option.none_or,
    List.find?_cons_of_pos (by rw [same]; decide)]

theorem lookup_left (sorted : Sorted cmp (left ++ entry :: right))
    (smaller : cmp key entry.1 = .lt) :
    lookup cmp key (left ++ entry :: right) = lookup cmp key left :=
  congrArg (Option.map Prod.snd) (entryAt_left sorted smaller)

theorem lookup_right (sorted : Sorted cmp (left ++ entry :: right))
    (larger : cmp key entry.1 = .gt) :
    lookup cmp key (left ++ entry :: right) = lookup cmp key right :=
  congrArg (Option.map Prod.snd) (entryAt_right sorted larger)

theorem lookup_same (sorted : Sorted cmp (left ++ entry :: right))
    (same : cmp key entry.1 = .eq) :
    lookup cmp key (left ++ entry :: right) = some entry.2 :=
  congrArg (Option.map Prod.snd) (entryAt_same sorted same)

omit [Std.TransCmp cmp] in
theorem find?_filter_of_imp {keeps found : Key × Value → Bool}
    (kept : ∀ other, found other = true → keeps other = true) :
    (entries.filter keeps).find? found = entries.find? found := by
  rw [List.find?_filter]
  congr 1
  funext other
  cases same : found other with
  | false => exact decide_eq_false fun both => by cases both.2
  | true => exact decide_eq_true ⟨kept other same, rfl⟩

/-- A key on a side that is kept is found as before. -/
theorem entryAt_select {wanted : Key}
    (keeps : kept (cmp wanted key) = true) :
    entryAt cmp wanted (select cmp kept key entries) =
      entryAt cmp wanted entries := by
  rw [entryAt, entryAt, select, find?_filter_of_imp]
  intro other found
  rw [← Std.TransCmp.congr_left (Ordering.isEq_iff_eq_eq.mp found)]
  exact keeps

/-- An insertion changes what is found under its key only. -/
theorem entryAt_insert (sorted : Sorted cmp entries) (key : Key)
    (value : Value) (wanted : Key) :
    entryAt cmp wanted (insert cmp key value entries) =
      if cmp wanted key = .eq then some (key, value)
      else entryAt cmp wanted entries := by
  have inserted := sorted.insert key value
  rw [insert] at inserted ⊢
  cases order : cmp wanted key with
  | eq =>
      rw [if_pos rfl]
      exact entryAt_same inserted order
  | lt =>
      rw [if_neg (by decide), entryAt_left inserted order]
      exact entryAt_select (by rw [order]; rfl)
  | gt =>
      rw [if_neg (by decide), entryAt_right inserted order]
      exact entryAt_select (by rw [order]; rfl)

/-- An erasure changes what is found under its key only. -/
theorem entryAt_erase (entries : List (Key × Value)) (key wanted : Key) :
    entryAt cmp wanted (erase cmp key entries) =
      if cmp wanted key = .eq then none else entryAt cmp wanted entries := by
  split
  · next same =>
    refine entryAt_eq_none_iff.mpr ?_
    intro other member equal
    have different := (mem_select.mp member).2
    rw [← Std.TransCmp.congr_left equal, same] at different
    cases different
  · next different =>
    exact entryAt_select (Ordering.isNe_iff_ne_eq.mpr different)

theorem lookup_insert (sorted : Sorted cmp entries) (key : Key)
    (value : Value) (wanted : Key) :
    lookup cmp wanted (insert cmp key value entries) =
      if cmp wanted key = .eq then some value
      else lookup cmp wanted entries := by
  rw [lookup, entryAt_insert sorted]
  split
  · rfl
  · rfl

theorem lookup_erase (entries : List (Key × Value)) (key wanted : Key) :
    lookup cmp wanted (erase cmp key entries) =
      if cmp wanted key = .eq then none else lookup cmp wanted entries := by
  rw [lookup, entryAt_erase]
  split
  · rfl
  · rfl

/-- An entry is found under its own key. -/
theorem entryAt_eq_some_iff (sorted : Sorted cmp entries)
    (wanted : Key) (value : Value) :
    entryAt cmp wanted entries = some (wanted, value) ↔
      (wanted, value) ∈ entries := by
  constructor
  · intro found
    exact (of_entryAt found).2
  · intro member
    rcases List.append_of_mem member with ⟨left, right, rfl⟩
    exact entryAt_same sorted Std.ReflCmp.compare_self

theorem compare_storedKey (key : Key) (entries : List (Key × Value)) :
    cmp key (storedKey cmp key entries) = .eq := by
  rw [storedKey]
  cases found : entryAt cmp key entries with
  | none => exact Std.ReflCmp.compare_self
  | some entry => exact (of_entryAt found).1

omit [Std.TransCmp cmp] in
theorem storedKey_mem (key : Key) (entries : List (Key × Value)) :
    storedKey cmp key entries = key ∨
      storedKey cmp key entries ∈ entries.map Prod.fst := by
  rw [storedKey]
  cases found : entryAt cmp key entries with
  | none => exact Or.inl rfl
  | some entry => exact Or.inr (List.mem_map_of_mem (of_entryAt found).2)

/-- Keys that compare equal find the same. -/
theorem entryAt_congr {wanted : Key} (same : cmp wanted key = .eq) :
    entryAt cmp wanted entries = entryAt cmp key entries := by
  rw [entryAt, entryAt]
  congr 1
  funext entry
  rw [Std.TransCmp.congr_left same]

theorem lookup_eq_some_iff (sorted : Sorted cmp entries)
    (wanted : Key) (value : Value) :
    lookup cmp wanted entries = some value ↔
      ∃ entry ∈ entries, cmp wanted entry.1 = .eq ∧ entry.2 = value := by
  rw [lookup, Option.map_eq_some_iff]
  constructor
  · rintro ⟨entry, found, rfl⟩
    rcases of_entryAt found with ⟨same, member⟩
    exact ⟨entry, member, same, rfl⟩
  · rintro ⟨entry, member, same, rfl⟩
    rcases List.append_of_mem member with ⟨left, right, rfl⟩
    exact ⟨entry, entryAt_same sorted same, rfl⟩

/-- Different entries of a sorted list have keys that differ. -/
theorem Sorted.eq_of_compare {first second : Key × Value}
    (sorted : Sorted cmp entries) (firstIn : first ∈ entries)
    (secondIn : second ∈ entries) (same : cmp first.1 second.1 = .eq) :
    first = second := by
  have found := (entryAt_eq_some_iff sorted second.1 second.2).mpr secondIn
  rw [← entryAt_congr same,
    (entryAt_eq_some_iff sorted first.1 first.2).mpr firstIn] at found
  exact Option.some.inj found

omit [Std.TransCmp cmp] in
theorem Sorted.nodup [Std.ReflCmp cmp] (sorted : Sorted cmp entries) :
    entries.Nodup := by
  refine sorted.imp ?_
  rintro first second less rfl
  cases less.symm.trans Std.ReflCmp.compare_self

/-- Different entries of a sorted list have different partners. -/
theorem Sorted.exists_partners {others : List (Key × Value)}
    {Partner : Key × Value → Key × Value → Prop} (sorted : Sorted cmp entries)
    (partner : ∀ entry ∈ entries, ∃ other ∈ others,
      cmp entry.1 other.1 = .eq ∧ Partner entry other) :
    ∃ choice : Key × Value → Key × Value,
      (∀ entry ∈ entries, cmp entry.1 (choice entry).1 = .eq ∧
        Partner entry (choice entry)) ∧
      (entries.map choice).Subperm others := by
  choose! choice inOthers equal using partner
  refine ⟨choice, equal, ?_⟩
  have injective : ∀ first ∈ entries, ∀ second ∈ entries,
      choice first = choice second → first = second := by
    intro first firstIn second secondIn same
    refine sorted.eq_of_compare firstIn secondIn ?_
    rw [Std.TransCmp.congr_left (equal first firstIn).1, same]
    exact Std.OrientedCmp.eq_symm (equal second secondIn).1
  apply List.subperm_of_subset (sorted.nodup.map_on injective)
  intro other member
  rcases List.mem_map.mp member with ⟨entry, inEntries, rfl⟩
  exact inOthers entry inEntries

/-- Two sorted lists of one length find the same if all that one of them finds
is found in the other as well. -/
theorem lookup_eq_of_subset {others : List (Key × Value)}
    (sorted : Sorted cmp entries) (othersSorted : Sorted cmp others)
    (size : entries.length = others.length)
    (inside : ∀ entry ∈ entries,
      lookup cmp entry.1 others = some entry.2) (wanted : Key) :
    lookup cmp wanted entries = lookup cmp wanted others := by
  rcases sorted.exists_partners fun entry member =>
      (lookup_eq_some_iff othersSorted entry.1 entry.2).mp
        (inside entry member) with ⟨choice, paired, short⟩
  -- there are no entries without a partner
  have perm : (entries.map choice).Perm others := by
    refine short.perm_of_length_le ?_
    rw [List.length_map, size]
  apply Option.ext
  intro found
  rw [lookup_eq_some_iff sorted, lookup_eq_some_iff othersSorted]
  constructor
  · rintro ⟨entry, member, same, rfl⟩
    refine ⟨choice entry, perm.mem_iff.mp (List.mem_map_of_mem member), ?_,
      (paired entry member).2⟩
    rw [Std.TransCmp.congr_left same]
    exact (paired entry member).1
  · rintro ⟨other, member, same, rfl⟩
    rcases List.mem_map.mp (perm.mem_iff.mpr member) with
      ⟨entry, inEntries, rfl⟩
    refine ⟨entry, inEntries, ?_, (paired entry inEntries).2.symm⟩
    rw [Std.TransCmp.congr_left same]
    exact Std.OrientedCmp.eq_symm (paired entry inEntries).1

theorem length_le_of_lookup {others : List (Key × Value)}
    (sorted : Sorted cmp entries) (othersSorted : Sorted cmp others)
    (alike : ∀ wanted, lookup cmp wanted entries = lookup cmp wanted others) :
    entries.length ≤ others.length := by
  have partner (entry : Key × Value) (member : entry ∈ entries) :
      ∃ other ∈ others, cmp entry.1 other.1 = .eq ∧ other.2 = entry.2 := by
    have found := (lookup_eq_some_iff sorted entry.1 entry.2).mpr
      ⟨entry, member, Std.ReflCmp.compare_self, rfl⟩
    rw [alike] at found
    exact (lookup_eq_some_iff othersSorted entry.1 entry.2).mp found
  rcases sorted.exists_partners partner with ⟨choice, _, short⟩
  rw [← @List.length_map _ _ entries choice]
  exact short.length_le

/-- A key has one value. -/
theorem Sorted.value_unique (sorted : Sorted cmp entries) {first second : Value}
    (left : (key, first) ∈ entries) (right : (key, second) ∈ entries) :
    first = second := by
  have same : cmp key key = .eq := Std.ReflCmp.compare_self
  rcases List.append_of_mem left with ⟨before, after, rfl⟩
  rcases List.mem_append.mp right with early | late
  · have less := sorted.lt_of_left early
    rw [same] at less
    cases less
  · rcases List.mem_cons.mp late with equal | later
    · exact (congrArg Prod.snd equal).symm
    · have less := sorted.lt_of_right later
      rw [same] at less
      cases less

/-- In sorted entries, a search for the key itself finds its value. -/
theorem Sorted.listLookup_eq_some_iff [BEq Key] [LawfulBEq Key]
    (sorted : Sorted cmp entries) (wanted : Key) (value : Value) :
    entries.lookup wanted = some value ↔ (wanted, value) ∈ entries := by
  constructor
  · intro found
    obtain ⟨before, after, rfl, _⟩ := List.lookup_eq_some_iff.mp found
    exact List.mem_append_right before List.mem_cons_self
  · intro member
    cases found : entries.lookup wanted with
    | none =>
        have absent := List.lookup_eq_none_iff.mp found _ member
        simp at absent
    | some other =>
        obtain ⟨before, after, shape, _⟩ := List.lookup_eq_some_iff.mp found
        have inside : (wanted, other) ∈ entries := by
          rw [shape]
          exact List.mem_append_right before List.mem_cons_self
        rw [sorted.value_unique inside member]

/-! ## At the head of a list -/

section Head

variable {rest : List (Key × Value)}

theorem select_cons_lt (sorted : Sorted cmp (entry :: rest))
    (smaller : cmp key entry.1 = .lt) :
    select cmp kept key (entry :: rest) =
      if kept .gt then entry :: rest else [] :=
  @select_left _ _ cmp [] rest entry key kept _ sorted smaller

theorem select_cons_gt (sorted : Sorted cmp (entry :: rest))
    (larger : cmp key entry.1 = .gt) :
    select cmp kept key (entry :: rest) =
      (if kept .lt then [entry] else []) ++ select cmp kept key rest :=
  @select_right _ _ cmp [] rest entry key kept _ sorted larger

theorem select_cons_eq (sorted : Sorted cmp (entry :: rest))
    (same : cmp key entry.1 = .eq) :
    select cmp kept key (entry :: rest) =
      (if kept .eq then [entry] else []) ++ if kept .gt then rest else [] := by
  have selected := @select_same _ _ cmp [] rest entry key kept _ sorted same
  rw [List.nil_append] at selected
  rw [selected, ite_self, List.nil_append]

theorem lookup_cons_gt (sorted : Sorted cmp (entry :: rest))
    (larger : cmp key entry.1 = .gt) :
    lookup cmp key (entry :: rest) = lookup cmp key rest :=
  @lookup_right _ _ cmp [] rest entry key _ sorted larger

theorem lookup_cons_eq (sorted : Sorted cmp (entry :: rest))
    (same : cmp key entry.1 = .eq) :
    lookup cmp key (entry :: rest) = some entry.2 :=
  @lookup_same _ _ cmp [] rest entry key _ sorted same

omit [Std.TransCmp cmp] in
theorem Sorted.tail (sorted : Sorted cmp (entry :: rest)) : Sorted cmp rest :=
  (List.pairwise_cons.mp sorted).2

end Head

/-! ## Sorting -/

/-- The entries in the order of their keys. -/
def sort (cmp : Key → Key → Ordering) (entries : List (Key × Value)) :
    List (Key × Value) :=
  entries.mergeSort fun first second => (cmp first.1 second.1).isLE

omit [Std.TransCmp cmp] in
theorem sort_perm (entries : List (Key × Value)) :
    (sort cmp entries).Perm entries :=
  List.mergeSort_perm _ _

/-- Entries with different keys are sorted strictly. -/
theorem sorted_sort
    (different : entries.Pairwise fun first second =>
      cmp first.1 second.1 ≠ .eq) : Sorted cmp (sort cmp entries) := by
  have ordered : (sort cmp entries).Pairwise fun first second =>
      (cmp first.1 second.1).isLE = true := by
    refine List.pairwise_mergeSort ?_ ?_ entries
    · intro first second third
      exact Std.TransCmp.isLE_trans
    · intro first second
      have swapped : cmp second.1 first.1 = (cmp first.1 second.1).swap :=
        Std.OrientedCmp.eq_swap
      rw [swapped]
      cases cmp first.1 second.1 <;> rfl
  have kept : (sort cmp entries).Pairwise fun first second =>
      cmp first.1 second.1 ≠ .eq := by
    refine different.perm (sort_perm entries).symm ?_
    intro first second unequal same
    exact unequal (Std.OrientedCmp.eq_symm same)
  refine (ordered.and kept).imp ?_
  intro first second both
  cases order : cmp first.1 second.1 with
  | lt => rfl
  | eq => exact absurd order both.2
  | gt =>
      rw [order] at both
      cases both.1

/-- A list has one sorted permutation. -/
theorem Sorted.eq_of_perm {first second : List (Key × Value)}
    (firstSorted : Sorted cmp first) (secondSorted : Sorted cmp second)
    (perm : first.Perm second) : first = second := by
  refine perm.eq_of_pairwise ?_ firstSorted secondSorted
  intro smaller larger _ _ less greater
  rw [Std.OrientedCmp.gt_of_lt less] at greater
  cases greater

/-- Sorting does not change what is found. -/
theorem lookup_sort
    (different : entries.Pairwise fun first second =>
      cmp first.1 second.1 ≠ .eq) (wanted : Key) :
    lookup cmp wanted (sort cmp entries) = lookup cmp wanted entries := by
  have symmetric : Std.Symm fun first second : Key × Value =>
      cmp first.1 second.1 ≠ .eq :=
    ⟨fun first second unequal same => unequal (Std.OrientedCmp.eq_symm same)⟩
  rw [lookup, lookup, entryAt, entryAt,
    ← List.find?_eq_find?_of_perm (sort_perm entries).symm]
  intro first firstFound second secondFound
  by_contra unequal
  refine different.forall firstFound.1 secondFound.1 unequal ?_
  have left : cmp wanted first.1 = .eq := by
    simpa using firstFound.2
  have right : cmp wanted second.1 = .eq := by
    simpa using secondFound.2
  rw [← Std.TransCmp.congr_left left]
  exact right

omit [Std.TransCmp cmp] in
/-- A key that the comparator tells from the others is found by itself. -/
theorem lookup_eq_listLookup [Std.ReflCmp cmp] [BEq Key] [LawfulBEq Key]
    {wanted : Key}
    (apart : ∀ entry ∈ entries, cmp wanted entry.1 = .eq →
      wanted = entry.1) :
    lookup cmp wanted entries = entries.lookup wanted := by
  induction entries with
  | nil => rfl
  | cons entry rest inductionHypothesis =>
      have later := inductionHypothesis fun other member =>
        apart other (List.mem_cons_of_mem entry member)
      rw [lookup, entryAt, List.find?_cons, List.lookup_cons]
      by_cases same : wanted = entry.1
      · have equal : cmp wanted entry.1 = .eq := by
          rw [same]
          exact Std.ReflCmp.compare_self
        rw [equal, beq_iff_eq.mpr same]
        rfl
      · have unequal : cmp wanted entry.1 ≠ .eq := fun equal =>
          same (apart entry List.mem_cons_self equal)
        have notEq : (cmp wanted entry.1).isEq = false := by
          simpa using unequal
        rw [notEq, beq_eq_false_iff_ne.mpr same, ← later]
        rfl

theorem insert_perm (absent : ∀ other ∈ entries, cmp key other.1 ≠ .eq) :
    (insert cmp key value entries).Perm (entries ++ [(key, value)]) := by
  have sides : select cmp Ordering.isGT key entries =
      entries.filter fun entry => !(cmp entry.1 key).isLT := by
    refine List.filter_congr ?_
    intro other member
    cases order : cmp other.1 key with
    | lt => rfl
    | eq => exact absurd (Std.OrientedCmp.eq_symm order) (absent other member)
    | gt => rfl
  have parts : (select cmp Ordering.isLT key entries ++
      select cmp Ordering.isGT key entries).Perm entries := by
    rw [sides]
    exact List.filter_append_perm _ entries
  rw [insert]
  refine List.perm_middle.trans ?_
  exact (List.Perm.cons _ parts).trans (List.perm_append_singleton _ _).symm

end SortedAssoc
