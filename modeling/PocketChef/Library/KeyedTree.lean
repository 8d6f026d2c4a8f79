import Mathlib.Data.List.Dedup
import Mathlib.Data.List.Sort
import Mathlib.Data.List.Infix

/-!
# Trees of keyed nodes

A tree is stored as the list of its leaves, each with the full path of keys
that leads to it.  A node exists when some leaf lies at or below it.

* `remove` deletes a whole subtree;
* `setFields` replaces a subtree by one level of leaves, and also replaces a
  leaf that stood on the way;
* `childKeys` collects the keys directly below a node, and `sortedKeys`
  enumerates them by a key order.
-/

namespace KeyedTree

universe u v

abbrev Tree (Key : Type u) (Value : Type v) :=
  List (List Key × Value)

variable {Key : Type u} {Value : Type v} [DecidableEq Key]

def lookup (tree : Tree Key Value) (path : List Key) : Option Value :=
  (tree.find? fun leaf => leaf.1 = path).map Prod.snd

/-- Some leaf lies at or below `path`. -/
def Exists (tree : Tree Key Value) (path : List Key) : Prop :=
  ∃ leaf ∈ tree, path <+: leaf.1

instance (tree : Tree Key Value) (path : List Key) :
    Decidable (Exists tree path) :=
  inferInstanceAs (Decidable (∃ leaf ∈ tree, path <+: leaf.1))

def remove (tree : Tree Key Value) (path : List Key) : Tree Key Value :=
  tree.filter fun leaf => ¬ path <+: leaf.1

def setFields
    (tree : Tree Key Value) (path : List Key)
    (fields : List (Key × Value)) : Tree Key Value :=
  (tree.filter fun leaf => ¬ path <+: leaf.1 ∧ ¬ leaf.1 <+: path) ++
    fields.map fun field => (path ++ [field.1], field.2)

/-- The key that follows `path` on the way to a leaf below it. -/
def nextKey (path leafPath : List Key) : Option Key :=
  if path <+: leafPath then (leafPath.drop path.length).head? else none

def childKeys (tree : Tree Key Value) (path : List Key) : List Key :=
  (tree.filterMap fun leaf => nextKey path leaf.1).dedup

/-- The child keys in the order of `le`. -/
def sortedKeys
    (le : Key → Key → Bool) (tree : Tree Key Value) (path : List Key) :
    List Key :=
  (childKeys tree path).mergeSort le

/-! ## Prefixes -/

omit [DecidableEq Key] in
theorem append_singleton_prefix_iff
    {path other : List Key} {key : Key} :
    path ++ [key] <+: other ↔
      path <+: other ∧ (other.drop path.length).head? = some key := by
  constructor
  · rintro ⟨rest, rfl⟩
    rw [List.append_assoc]
    exact ⟨List.prefix_append path _, by simp⟩
  · rintro ⟨⟨rest, rfl⟩, following⟩
    rw [List.drop_left] at following
    obtain ⟨tail, rfl⟩ := List.head?_eq_some_iff.mp following
    exact ⟨tail, by simp⟩

omit [DecidableEq Key] in
/-- Two different children of a node lie on no common path. -/
theorem children_apart {path leaf : List Key} {first second : Key}
    (different : first ≠ second)
    (below : path ++ [first] <+: leaf) :
    ¬ path ++ [second] <+: leaf := by
  intro other
  have left := (append_singleton_prefix_iff.mp below).2
  have right := (append_singleton_prefix_iff.mp other).2
  rw [left] at right
  exact different (Option.some.inj right)

omit [DecidableEq Key] in
theorem child_not_above {path leaf : List Key} {first second : Key}
    (different : first ≠ second)
    (below : path ++ [first] <+: leaf) :
    ¬ leaf <+: path ++ [second] := by
  intro above
  have whole : path ++ [first] <+: path ++ [second] := below.trans above
  exact children_apart different whole (List.prefix_refl _)

/-! ## Leaves -/

omit [DecidableEq Key] in
/-- A node that does not exist has no children. -/
theorem not_exists_child {tree : Tree Key Value} {path : List Key}
    (absent : ¬ Exists tree path) (key : Key) :
    ¬ Exists tree (path ++ [key]) := by
  rintro ⟨leaf, member, below⟩
  have above : path <+: leaf.1 := (List.prefix_append path [key]).trans below
  exact absent ⟨leaf, member, above⟩

/-- A filter that keeps every leaf at the path does not change it. -/
theorem lookup_filter {tree : Tree Key Value} {path : List Key}
    {keeps : List Key × Value → Bool}
    (stays : ∀ leaf, leaf.1 = path → keeps leaf = true) :
    lookup (tree.filter keeps) path = lookup tree path := by
  rw [lookup, List.find?_filter, lookup]
  congr 1
  refine congrArg (fun test => List.find? test tree) (funext fun leaf => ?_)
  by_cases equal : leaf.1 = path
  · simp only [stays leaf equal, decide_eq_true equal, and_self, decide_true]
  · simp only [decide_eq_false equal, Bool.false_eq_true, and_false,
      decide_false]

/-! ## Children -/

theorem mem_childKeys_iff
    {tree : Tree Key Value} {path : List Key} {key : Key} :
    key ∈ childKeys tree path ↔ Exists tree (path ++ [key]) := by
  simp only [childKeys, List.mem_dedup, List.mem_filterMap, Exists,
    nextKey, append_singleton_prefix_iff]
  constructor
  · rintro ⟨leaf, member, found⟩
    by_cases below : path <+: leaf.1
    · rw [if_pos below] at found
      exact ⟨leaf, member, below, found⟩
    · rw [if_neg below] at found
      cases found
  · rintro ⟨leaf, member, below, found⟩
    exact ⟨leaf, member, by rw [if_pos below]; exact found⟩

theorem childKeys_nodup (tree : Tree Key Value) (path : List Key) :
    (childKeys tree path).Nodup :=
  List.nodup_dedup _

/-- When the children are numbered `0, …, count - 1` by `key`, every order
enumerates each of them once. -/
theorem sortedKeys_perm
    (le : Key → Key → Bool)
    {tree : Tree Key Value} {path : List Key}
    {key : Nat → Key} {count : Nat}
    (injective :
      ∀ i ∈ List.range count, ∀ j ∈ List.range count,
        key i = key j → i = j)
    (children :
      ∀ k, Exists tree (path ++ [k]) ↔ ∃ i < count, key i = k) :
    (sortedKeys le tree path).Perm ((List.range count).map key) := by
  have numbersNodup : ((List.range count).map key).Nodup :=
    List.Nodup.map_on injective List.nodup_range
  have unsorted :
      (childKeys tree path).Perm ((List.range count).map key) := by
    apply (List.perm_ext_iff_of_nodup
      (childKeys_nodup tree path) numbersNodup).mpr
    intro k
    rw [mem_childKeys_iff, children, List.mem_map]
    simp only [List.mem_range]
  exact (List.mergeSort_perm _ _).trans unsorted

/-- When the order of the keys is the order of their numbers, the children
are enumerated by number. -/
theorem sortedKeys_numbered
    {le : Key → Key → Bool}
    (transitive : ∀ a b c, le a b = true → le b c = true → le a c = true)
    (total : ∀ a b, (le a b || le b a) = true)
    {tree : Tree Key Value} {path : List Key}
    {key : Nat → Key} {count : Nat}
    (numeric :
      ∀ i j, i < count → j < count →
        (le (key i) (key j) = true ↔ i ≤ j))
    (children :
      ∀ k, Exists tree (path ++ [k]) ↔ ∃ i < count, key i = k) :
    sortedKeys le tree path = (List.range count).map key := by
  have injective :
      ∀ i ∈ List.range count, ∀ j ∈ List.range count,
        key i = key j → i = j := by
    intro i left j right same
    rw [List.mem_range] at left right
    have forth := (numeric i j left right).mp
    have back := (numeric j i right left).mp
    rw [same] at forth back
    have reflexive := (numeric j j right right).mpr (Nat.le_refl j)
    exact Nat.le_antisymm (forth reflexive) (back reflexive)
  have permutation := sortedKeys_perm le injective children
  refine List.Perm.eq_of_pairwise ?_
    (List.pairwise_mergeSort transitive total _) ?_ permutation
  · intro a b left right forth back
    rw [permutation.mem_iff] at left
    obtain ⟨i, iMember, rfl⟩ := List.mem_map.mp left
    obtain ⟨j, jMember, rfl⟩ := List.mem_map.mp right
    rw [List.mem_range] at iMember jMember
    have upper := (numeric i j iMember jMember).mp forth
    have lower := (numeric j i jMember iMember).mp back
    rw [Nat.le_antisymm upper lower]
  · rw [List.pairwise_map]
    apply List.pairwise_lt_range.imp_of_mem
    intro i j left right order
    rw [List.mem_range] at left right
    exact (numeric i j left right).mpr (Nat.le_of_lt order)

/-! ## Removing a subtree -/

theorem not_exists_remove
    {tree : Tree Key Value} {path below : List Key}
    (inside : path <+: below) :
    ¬ Exists (remove tree path) below := by
  rintro ⟨leaf, member, onPath⟩
  have outside := (List.mem_filter.mp member).2
  simp only [decide_not, Bool.not_eq_true', decide_eq_false_iff_not]
    at outside
  exact outside (inside.trans onPath)

theorem exists_remove_child_iff
    {tree : Tree Key Value} {path : List Key} {removed key : Key} :
    Exists (remove tree (path ++ [removed])) (path ++ [key]) ↔
      key ≠ removed ∧ Exists tree (path ++ [key]) := by
  constructor
  · intro stays
    constructor
    · rintro rfl
      exact not_exists_remove (List.prefix_refl _) stays
    · obtain ⟨leaf, member, onPath⟩ := stays
      exact ⟨leaf, (List.mem_filter.mp member).1, onPath⟩
  · rintro ⟨different, leaf, member, onPath⟩
    refine ⟨leaf, List.mem_filter.mpr ⟨member, ?_⟩, onPath⟩
    simpa using children_apart different onPath

/-- Removing one child leaves the leaves under its siblings alone. -/
theorem lookup_remove_sibling
    {tree : Tree Key Value} {path : List Key} {removed key : Key}
    {below : List Key} (different : key ≠ removed) :
    lookup (remove tree (path ++ [removed])) (path ++ [key] ++ below) =
      lookup tree (path ++ [key] ++ below) := by
  have onPath : path ++ [key] <+: path ++ [key] ++ below :=
    List.prefix_append _ _
  have apart := children_apart different onPath
  refine lookup_filter fun leaf equal => ?_
  rw [equal]
  exact decide_eq_true apart

/-! ## Replacing a subtree -/

theorem exists_setFields_child_iff
    {tree : Tree Key Value} {path : List Key} {set key : Key}
    {fields : List (Key × Value)} (nonempty : fields ≠ []) :
    Exists (setFields tree (path ++ [set]) fields) (path ++ [key]) ↔
      key = set ∨ Exists tree (path ++ [key]) := by
  constructor
  · rintro ⟨leaf, member, onPath⟩
    rcases List.mem_append.mp member with old | new
    · exact Or.inr ⟨leaf, (List.mem_filter.mp old).1, onPath⟩
    · obtain ⟨field, _, rfl⟩ := List.mem_map.mp new
      by_cases same : key = set
      · exact Or.inl same
      · exact absurd (List.prefix_append _ _)
          (children_apart same onPath)
  · intro cases
    by_cases same : key = set
    · subst same
      obtain ⟨field, rest, rfl⟩ := List.exists_cons_of_ne_nil nonempty
      refine ⟨(path ++ [key] ++ [field.1], field.2), ?_,
        List.prefix_append _ _⟩
      exact List.mem_append_right _ (List.mem_map.mpr
        ⟨field, List.mem_cons_self, rfl⟩)
    · obtain ⟨leaf, member, onPath⟩ := cases.resolve_left same
      refine ⟨leaf, List.mem_append_left _ ?_, onPath⟩
      refine List.mem_filter.mpr ⟨member, ?_⟩
      have apart := children_apart same onPath
      have notAbove := child_not_above same onPath
      simp [apart, notAbove]

theorem lookup_setFields_self
    {tree : Tree Key Value} {path : List Key} {key : Key}
    {fields : List (Key × Value)} :
    lookup (setFields tree path fields) (path ++ [key]) =
      fields.lookup key := by
  have untouched :
      (tree.filter fun leaf =>
          ¬ path <+: leaf.1 ∧ ¬ leaf.1 <+: path).find?
        (fun leaf => leaf.1 = path ++ [key]) = none := by
    rw [List.find?_eq_none]
    intro leaf member equal
    have outside := (List.mem_filter.mp member).2
    simp only [decide_eq_true_eq] at outside equal
    exact outside.1 (equal ▸ List.prefix_append path [key])
  rw [lookup, setFields, List.find?_append, untouched, Option.none_or]
  induction fields with
  | nil =>
      rfl
  | cons field rest inductionHypothesis =>
      rcases field with ⟨name, value⟩
      by_cases same : key = name
      · simp [same]
      · have different : ¬ name = key := fun equal => same equal.symm
        simpa [List.lookup_cons, same, different, beq_eq_false_iff_ne.mpr same]
          using inductionHypothesis

/-- Setting one child leaves the leaves under its siblings alone. -/
theorem lookup_setFields_sibling
    {tree : Tree Key Value} {path : List Key} {set key : Key}
    {below : List Key} {fields : List (Key × Value)}
    (different : key ≠ set) :
    lookup (setFields tree (path ++ [set]) fields)
        (path ++ [key] ++ below) =
      lookup tree (path ++ [key] ++ below) := by
  have onPath : path ++ [key] <+: path ++ [key] ++ below :=
    List.prefix_append _ _
  have apart := children_apart different onPath
  have notAbove := child_not_above different onPath
  have added :
      (fields.map fun field =>
          (path ++ [set] ++ [field.1], field.2)).find?
        (fun leaf => leaf.1 = path ++ [key] ++ below) = none := by
    rw [List.find?_eq_none]
    intro leaf member equal
    obtain ⟨field, _, rfl⟩ := List.mem_map.mp member
    simp only [decide_eq_true_eq] at equal
    exact apart (equal ▸ List.prefix_append _ _)
  rw [lookup, setFields, List.find?_append, added, Option.or_none]
  refine lookup_filter fun leaf equal => ?_
  rw [equal]
  exact decide_eq_true ⟨apart, notAbove⟩

/-! ## Leaves after an update -/

theorem lookup_remove (tree : Tree Key Value) (removed path : List Key) :
    lookup (remove tree removed) path =
      if removed <+: path then none else lookup tree path := by
  by_cases inside : removed <+: path
  · rw [if_pos inside, lookup, Option.map_eq_none_iff, List.find?_eq_none]
    intro leaf member equal
    have outside := (List.mem_filter.mp member).2
    rw [of_decide_eq_true equal] at outside
    exact of_decide_eq_true outside inside
  · rw [if_neg inside]
    refine lookup_filter fun leaf equal => ?_
    rw [equal]
    exact decide_eq_true inside

/-- Only the fields are below a subtree that is replaced, and nothing is left
above it. -/
theorem lookup_setFields (tree : Tree Key Value) (set path : List Key)
    (fields : List (Key × Value)) :
    lookup (setFields tree set fields) path =
      if set <+: path then
        match path.drop set.length with
        | [key] => fields.lookup key
        | _ => none
      else if path <+: set then none
      else lookup tree path := by
  have added (absent : ∀ field ∈ fields, set ++ [field.1] ≠ path) :
      lookup (setFields tree set fields) path =
        lookup (tree.filter fun leaf =>
          ¬ set <+: leaf.1 ∧ ¬ leaf.1 <+: set) path := by
    have nothing : (fields.map fun field =>
        (set ++ [field.1], field.2)).find? (fun leaf => leaf.1 = path) =
          none := by
      rw [List.find?_eq_none]
      intro leaf member equal
      obtain ⟨field, inside, rfl⟩ := List.mem_map.mp member
      exact absent field inside (of_decide_eq_true equal)
    rw [lookup, setFields, List.find?_append, nothing, Option.or_none]
    rfl
  have dropped (touched : set <+: path ∨ path <+: set) :
      lookup (tree.filter fun leaf =>
        ¬ set <+: leaf.1 ∧ ¬ leaf.1 <+: set) path = none := by
    rw [lookup, Option.map_eq_none_iff, List.find?_eq_none]
    intro leaf member equal
    have outside := of_decide_eq_true (List.mem_filter.mp member).2
    rw [of_decide_eq_true equal] at outside
    rcases touched with below | above
    · exact outside.1 below
    · exact outside.2 above
  by_cases below : set <+: path
  · rw [if_pos below]
    obtain ⟨rest, rfl⟩ := below
    rw [List.drop_left]
    split
    · exact lookup_setFields_self
    · rename_i several
      rw [added, dropped (Or.inl (List.prefix_append set rest))]
      intro field _ same
      exact several field.1 (List.append_cancel_left same).symm
  · rw [if_neg below, added]
    · by_cases above : path <+: set
      · rw [if_pos above, dropped (Or.inr above)]
      · rw [if_neg above]
        refine lookup_filter fun leaf equal => ?_
        rw [equal]
        exact decide_eq_true ⟨below, above⟩
    · rintro field _ rfl
      exact below (List.prefix_append set _)

/-! ## Apart subtrees -/

/-- The leaves at or below `path`. -/
def below (tree : Tree Key Value) (path : List Key) : Tree Key Value :=
  tree.filter fun leaf => path <+: leaf.1

def Apart (first second : List Key) : Prop :=
  ¬ first <+: second ∧ ¬ second <+: first

theorem lookup_below {tree : Tree Key Value} {path leafPath : List Key}
    (inside : path <+: leafPath) :
    lookup (below tree path) leafPath = lookup tree leafPath := by
  refine lookup_filter fun leaf equal => ?_
  rw [equal]
  exact decide_eq_true inside

theorem exists_below_iff {tree : Tree Key Value} {path node : List Key}
    (inside : path <+: node) :
    Exists (below tree path) node ↔ Exists tree node := by
  constructor
  · rintro ⟨leaf, member, onPath⟩
    exact ⟨leaf, (List.mem_filter.mp member).1, onPath⟩
  · rintro ⟨leaf, member, onPath⟩
    refine ⟨leaf, List.mem_filter.mpr ⟨member, ?_⟩, onPath⟩
    exact decide_eq_true (inside.trans onPath)

omit [DecidableEq Key] in
/-- Two paths to one leaf are not apart. -/
theorem Apart.not_both {first second leaf : List Key}
    (apart : Apart first second) (below : second <+: leaf) :
    ¬ first <+: leaf := by
  intro other
  rcases List.prefix_or_prefix_of_prefix other below with forth | back
  · exact apart.1 forth
  · exact apart.2 back

theorem below_remove {tree : Tree Key Value} {removed path : List Key}
    (apart : Apart removed path) :
    below (remove tree removed) path = below tree path := by
  rw [below, remove, List.filter_filter, below]
  apply List.filter_congr
  intro leaf _
  by_cases inside : path <+: leaf.1
  · simp [inside, apart.not_both inside]
  · simp [inside]

theorem below_setFields {tree : Tree Key Value} {set path : List Key}
    {fields : List (Key × Value)} (apart : Apart set path) :
    below (setFields tree set fields) path = below tree path := by
  have added :
      (fields.map fun field => (set ++ [field.1], field.2)).filter
        (fun leaf => decide (path <+: leaf.1)) = [] := by
    rw [List.filter_eq_nil_iff]
    intro leaf member inside
    rcases List.mem_map.mp member with ⟨field, _, rfl⟩
    exact apart.not_both (of_decide_eq_true inside)
      (List.prefix_append set [field.1])
  rw [below, setFields, List.filter_append, added, List.append_nil,
    List.filter_filter, below]
  apply List.filter_congr
  intro leaf _
  by_cases inside : path <+: leaf.1
  · have above : ¬ leaf.1 <+: set := fun above =>
      apart.2 (inside.trans above)
    simp [inside, apart.not_both inside, above]
  · simp [inside]

end KeyedTree
