import PocketChef.Firebase.FImmutableSortedDictionary
import PocketChef.Firebase.KeyEquality

/-!
# Runs of insertions and removals

What a dictionary answers after any sequence of insertions and removals, as an
array, as a tree, and across the conversion from one to the other.  Keys that
compare equal count as one key.  With the comparator of the children of a
node, `"00"` and `"-0"` do.
-/

namespace PocketChef
namespace Firebase

universe u v

open SortedAssoc (Sorted select)

variable {Key : Type u} {Value : Type v}

inductive DictionaryUpdate (Key : Type u) (Value : Type v) where
  | insertKey (key : Key) (value : Value)
  | removeKey (key : Key)
  deriving DecidableEq

namespace DictionaryUpdate

def apply (comparator : Key → Key → Ordering)
    (self : FImmutableSortedDictionary Key Value) :
    DictionaryUpdate Key Value → Option (FImmutableSortedDictionary Key Value)
  | .insertKey key value => self.insertKey comparator key value
  | .removeKey key => some (self.removeKey comparator key)

/-- An update of a map from keys to values. -/
def effect (comparator : Key → Key → Ordering) (map : Key → Option Value) :
    DictionaryUpdate Key Value → Key → Option Value
  | .insertKey key value, wanted =>
      if comparator wanted key = .eq then some value else map wanted
  | .removeKey key, wanted =>
      if comparator wanted key = .eq then none else map wanted

/-- The map after `updates` of an empty one. -/
def mapAfter (comparator : Key → Key → Ordering)
    (updates : List (DictionaryUpdate Key Value)) : Key → Option Value :=
  updates.foldl (effect comparator) fun _ => none

end DictionaryUpdate

namespace FImmutableSortedDictionary

def run (comparator : Key → Key → Ordering)
    (self : FImmutableSortedDictionary Key Value)
    (updates : List (DictionaryUpdate Key Value)) :
    Option (FImmutableSortedDictionary Key Value) :=
  updates.foldlM (DictionaryUpdate.apply comparator) self

/-- The dictionary answers as a map does. -/
structure Represents (comparator : Key → Key → Ordering)
    (dictionary : FImmutableSortedDictionary Key Value)
    (map : Key → Option Value) : Prop where
  valid : Valid comparator dictionary
  get : ∀ key, dictionary.get comparator key = map key

variable {comparator : Key → Key → Ordering}
variable {self : FImmutableSortedDictionary Key Value}

theorem Represents.new :
    Represents comparator (new : FImmutableSortedDictionary Key Value)
      fun _ => none where
  valid := Valid.new
  get _ := rfl

theorem run_cons (update : DictionaryUpdate Key Value)
    (rest : List (DictionaryUpdate Key Value)) :
    self.run comparator (update :: rest) =
      update.apply comparator self >>= fun next =>
        next.run comparator rest :=
  List.foldlM_cons

theorem run_tree (updates : List (DictionaryUpdate Key Value))
    (self : FTreeSortedDictionary Key Value) :
    ∃ final, (tree self).run comparator updates = some (.tree final) := by
  induction updates generalizing self with
  | nil => exact ⟨self, rfl⟩
  | cons update rest inductionHypothesis =>
      cases update with
      | insertKey key value =>
          exact inductionHypothesis (self.insertKey comparator key value)
      | removeKey key =>
          exact inductionHypothesis (self.removeKey comparator key)

/-- A removal brings no key in, an insertion none but its own. -/
theorem Valid.key_of_apply [Std.TransCmp comparator]
    (valid : Valid comparator self) {update : DictionaryUpdate Key Value}
    {next : FImmutableSortedDictionary Key Value}
    (stepped : update.apply comparator self = some next) {stored : Key}
    (member : stored ∈ next.entries.map Prod.fst) :
    stored ∈ self.entries.map Prod.fst ∨
      ∃ value, update = .insertKey stored value := by
  rcases List.mem_map.mp member with ⟨entry, inNext, rfl⟩
  cases update with
  | insertKey key value =>
      rcases valid.insertKey key value with
        ⟨inserted, made, _, kept, _, origin, entries⟩
      have same : inserted = next := Option.some.inj (made.symm.trans stepped)
      rw [← same, entries] at inNext
      rcases SortedAssoc.of_mem_insert inNext with rfl | before
      · rcases origin with rfl | old
        · exact Or.inr ⟨value, rfl⟩
        · exact Or.inl old
      · exact Or.inl (List.mem_map_of_mem before)
  | removeKey key =>
      have same := Option.some.inj stepped
      rw [← same, (valid.removeKey key).2] at inNext
      exact Or.inl (List.mem_map_of_mem (SortedAssoc.mem_select.mp inNext).1)

variable [Std.TransCmp comparator]

/-- The keys of a dictionary stand for those of its map, in order. -/
theorem Represents.allKeys {map : Key → Option Value}
    (represents : Represents comparator self map) :
    (self.allKeys comparator).Pairwise
        (fun first second => comparator first second = .lt) ∧
      (∀ key, map key ≠ none ↔
        ∃ stored ∈ self.allKeys comparator,
          comparator key stored = .eq) ∧
      self.count = (self.allKeys comparator).length := by
  have valid := represents.valid
  rw [valid.allKeys]
  refine ⟨List.pairwise_map.mpr valid.sorted, ?_, ?_⟩
  · intro key
    rw [← represents.get, valid.get]
    constructor
    · intro present
      rcases Option.ne_none_iff_exists'.mp present with ⟨value, found⟩
      rcases (SortedAssoc.lookup_eq_some_iff valid.sorted key value).mp found
        with ⟨entry, member, same, _⟩
      exact ⟨entry.1, List.mem_map_of_mem member, same⟩
    · rintro ⟨stored, member, same⟩ nothing
      rcases List.mem_map.mp member with ⟨entry, inside, rfl⟩
      have found := (SortedAssoc.lookup_eq_some_iff valid.sorted key
        entry.2).mpr ⟨entry, inside, same, rfl⟩
      rw [nothing] at found
      cases found
  · rw [count_eq, List.length_map]

theorem Valid.apply (valid : Valid comparator self)
    {update : DictionaryUpdate Key Value}
    {next : FImmutableSortedDictionary Key Value}
    (stepped : update.apply comparator self = some next) :
    Valid comparator next := by
  cases update with
  | insertKey key value =>
      rcases valid.insertKey key value with ⟨inserted, made, kept, _⟩
      rw [← Option.some.inj (made.symm.trans stepped)]
      exact kept
  | removeKey key =>
      rw [← Option.some.inj stepped]
      exact (valid.removeKey key).1

/-- The keys after a run were there before it, or it has inserted them. -/
theorem Valid.key_of_run {updates : List (DictionaryUpdate Key Value)}
    (valid : Valid comparator self)
    {final : FImmutableSortedDictionary Key Value}
    (ran : self.run comparator updates = some final) {stored : Key}
    (member : stored ∈ final.entries.map Prod.fst) :
    stored ∈ self.entries.map Prod.fst ∨
      ∃ value, .insertKey stored value ∈ updates := by
  induction updates generalizing self with
  | nil =>
      rw [Option.some.inj ran]
      exact Or.inl member
  | cons update rest inductionHypothesis =>
      rw [run_cons] at ran
      rcases Option.bind_eq_some_iff.mp ran with ⟨next, stepped, ranRest⟩
      rcases inductionHypothesis (valid.apply stepped) ranRest with
        before | ⟨value, later⟩
      · rcases valid.key_of_apply stepped before with old | ⟨value, rfl⟩
        · exact Or.inl old
        · exact Or.inr ⟨value, List.mem_cons_self⟩
      · exact Or.inr ⟨value, List.mem_cons_of_mem update later⟩

/-- Dictionaries are equal if they answer alike. -/
theorem isEqual_iff [DecidableEq Value]
    {other : FImmutableSortedDictionary Key Value}
    (valid : Valid comparator self) (otherValid : Valid comparator other) :
    self.isEqual comparator other = true ↔
      ∀ key, self.get comparator key = other.get comparator key := by
  rw [isEqual, Bool.and_eq_true, decide_eq_true_eq, List.all_eq_true,
    count_eq, count_eq]
  simp only [decide_eq_true_eq, valid.get, otherValid.get]
  constructor
  · rintro ⟨size, each⟩ key
    exact SortedAssoc.lookup_eq_of_subset valid.sorted otherValid.sorted size
      each key
  · intro alike
    constructor
    · apply Nat.le_antisymm
      · exact SortedAssoc.length_le_of_lookup valid.sorted otherValid.sorted
          alike
      · exact SortedAssoc.length_le_of_lookup otherValid.sorted valid.sorted
          fun key => (alike key).symm
    · intro entry member
      rw [← alike]
      exact (SortedAssoc.lookup_eq_some_iff valid.sorted _ _).mpr
        ⟨entry, member, Std.ReflCmp.compare_self, rfl⟩

/-! ## From an array to a tree -/

/-- An update makes a tree of an array only when there are more than 25
keys. -/
theorem apply_array {self : FArraySortedDictionary Key Value}
    (valid : Valid comparator (.array self))
    {update : DictionaryUpdate Key Value}
    {next : FImmutableSortedDictionary Key Value}
    (stepped : update.apply comparator (.array self) = some next) :
    (∃ array, next = .array array) ∨
      (∃ tree, next = .tree tree) ∧
        sortedDictionaryArrayToRbTreeSizeThreshold < next.count := by
  cases next with
  | array array => exact Or.inl ⟨array, rfl⟩
  | tree tree =>
      refine Or.inr ⟨⟨tree, rfl⟩, ?_⟩
      cases update with
      | removeKey key => cases stepped
      | insertKey key value =>
          change self.insertKey comparator key value = _ at stepped
          cases valid with
          | array sorted small =>
          rcases array_insertKey sorted small key value with
            ⟨inserted, made, _, entries⟩
          have same := Option.some.inj (made.symm.trans stepped)
          rw [FArraySortedDictionary.insertKey] at stepped
          rw [same] at entries
          rw [count_eq, entries]
          split at stepped
          · next found =>
            have absent := FArraySortedDictionary.findPosition_eq_none
              sorted found
            rw [(SortedAssoc.insert_perm absent).length_eq,
              List.length_append, List.length_singleton]
            split at stepped
            · next full => exact Nat.lt_succ_of_le full
            · cases stepped
          · cases stepped

/-- A dictionary stays an array as long as it has at most 25 keys. -/
theorem isArray_iff (updates : List (DictionaryUpdate Key Value))
    {start : FArraySortedDictionary Key Value}
    (valid : Valid comparator (.array start))
    {final : FImmutableSortedDictionary Key Value}
    (ran : (array start).run comparator updates = some final) :
    (∃ array, final = .array array) ↔
      ∀ before, before <+: updates →
        ∀ between, (array start).run comparator before = some between →
          between.count ≤ sortedDictionaryArrayToRbTreeSizeThreshold := by
  induction updates generalizing start with
  | nil =>
      have small : (array start).count ≤
          sortedDictionaryArrayToRbTreeSizeThreshold := by
        cases valid with
        | array _ small => exact small
      constructor
      · intro _ before first between reached
        rw [List.prefix_nil.mp first] at reached
        rw [← Option.some.inj reached]
        exact small
      · intro _
        exact ⟨start, (Option.some.inj ran).symm⟩
  | cons update rest inductionHypothesis =>
      rw [run_cons] at ran
      rcases Option.bind_eq_some_iff.mp ran with ⟨next, stepped, ranRest⟩
      have further (before : List (DictionaryUpdate Key Value)) :
          (array start).run comparator (update :: before) =
            next.run comparator before := by
        rw [run_cons, stepped]
        rfl
      rcases apply_array valid stepped with ⟨after, rfl⟩ | ⟨⟨after, rfl⟩, many⟩
      · have small : (array start).count ≤
            sortedDictionaryArrayToRbTreeSizeThreshold := by
          cases valid with
          | array _ small => exact small
        rw [inductionHypothesis (valid.apply stepped) ranRest]
        constructor
        · intro each before first between reached
          cases before with
          | nil =>
              rw [← Option.some.inj reached]
              exact small
          | cons other before =>
              rcases List.cons_prefix_cons.mp first with ⟨rfl, earlier⟩
              rw [further] at reached
              exact each before earlier between reached
        · intro each before earlier between reached
          rw [← further] at reached
          exact each (update :: before)
            (List.cons_prefix_cons.mpr ⟨rfl, earlier⟩) between reached
      · rcases run_tree rest after with ⟨last, stays⟩
        have same := Option.some.inj (ranRest.symm.trans stays)
        constructor
        · rintro ⟨other, rfl⟩
          cases same
        · intro each
          have first : [update] <+: update :: rest :=
            List.cons_prefix_cons.mpr ⟨rfl, List.nil_prefix⟩
          have few := each [update] first (.tree after) (further [])
          omega

/-! ## Refinement of a map -/

/-- One update changes the dictionary as it changes the map. -/
theorem Represents.step {map : Key → Option Value}
    (represents : Represents comparator self map)
    (update : DictionaryUpdate Key Value) :
    ∃ next, update.apply comparator self = some next ∧
      Represents comparator next
        (DictionaryUpdate.effect comparator map update) := by
  cases update with
  | insertKey key value =>
      rcases represents.valid.insertKey key value with
        ⟨inserted, made, valid, kept, same, _, entries⟩
      refine ⟨inserted, made, valid, ?_⟩
      intro wanted
      rw [valid.get, entries,
        SortedAssoc.lookup_insert represents.valid.sorted,
        ← represents.valid.get, represents.get, ← Std.TransCmp.congr_right same]
      rfl
  | removeKey key =>
      rcases represents.valid.removeKey key with ⟨valid, entries⟩
      refine ⟨_, rfl, valid, ?_⟩
      intro wanted
      rw [valid.get, entries, SortedAssoc.lookup_erase,
        ← represents.valid.get, represents.get]
      rfl

theorem Represents.run {map : Key → Option Value}
    (represents : Represents comparator self map)
    (updates : List (DictionaryUpdate Key Value)) :
    ∃ final, self.run comparator updates = some final ∧
      Represents comparator final
        (updates.foldl (DictionaryUpdate.effect comparator) map) := by
  induction updates generalizing self map with
  | nil => exact ⟨self, rfl, represents⟩
  | cons update rest inductionHypothesis =>
      rcases represents.step update with ⟨next, stepped, kept⟩
      rcases inductionHypothesis kept with ⟨final, ran, keptAfter⟩
      refine ⟨final, ?_, keptAfter⟩
      rw [FImmutableSortedDictionary.run, List.foldlM_cons, stepped]
      exact ran

/-- After any insertions and removals, no exception has been thrown, every key
has the value inserted last under a key that compares equal, if none was
removed since, and the stored keys are enumerated in their order.  Each of
them has been inserted in the spelling it is stored in. -/
theorem run_refines (updates : List (DictionaryUpdate Key Value)) :
    ∃ final, run comparator new updates = some final ∧
      (∀ key, final.get comparator key =
        DictionaryUpdate.mapAfter comparator updates key) ∧
      (final.allKeys comparator).Pairwise
        (fun first second => comparator first second = .lt) ∧
      (∀ key, DictionaryUpdate.mapAfter comparator updates key ≠ none ↔
        ∃ stored ∈ final.allKeys comparator, comparator key stored = .eq) ∧
      (∀ stored ∈ final.allKeys comparator,
        ∃ value, .insertKey stored value ∈ updates) ∧
      final.count = (final.allKeys comparator).length := by
  rcases (Represents.new : Represents comparator _ _).run updates with
    ⟨final, ran, represents⟩
  rcases represents.allKeys with ⟨ordered, keys, size⟩
  refine ⟨final, ran, represents.get, ordered, keys, ?_, size⟩
  intro stored member
  rw [represents.valid.allKeys] at member
  rcases (Valid.new : Valid comparator _).key_of_run ran member with
    nothing | inserted
  · cases nothing
  · exact inserted

theorem run_refines_replaced :
    let updates : List (DictionaryUpdate String String) :=
      [.insertKey "00" "a", .insertKey "b" "c", .insertKey "-0" "d",
        .removeKey "b"]
    ∃ final, run FUtilities.compareKey new updates = some final ∧
      (∀ key, final.get FUtilities.compareKey key =
        DictionaryUpdate.mapAfter FUtilities.compareKey updates key) ∧
      (final.allKeys FUtilities.compareKey).Pairwise
        (fun first second => FUtilities.compareKey first second = .lt) ∧
      (∀ key,
        DictionaryUpdate.mapAfter FUtilities.compareKey updates key ≠ none ↔
          ∃ stored ∈ final.allKeys FUtilities.compareKey,
            FUtilities.compareKey key stored = .eq) ∧
      (∀ stored ∈ final.allKeys FUtilities.compareKey,
        ∃ value, .insertKey stored value ∈ updates) ∧
      final.count = (final.allKeys FUtilities.compareKey).length :=
  run_refines _

/-- Two histories give equal dictionaries if they leave the same map, whatever
the spellings of its keys. -/
theorem run_isEqual [DecidableEq Value]
    (updates others : List (DictionaryUpdate Key Value)) :
    ∃ final other, run comparator new updates = some final ∧
      run comparator new others = some other ∧
      (final.isEqual comparator other = true ↔
        ∀ key, DictionaryUpdate.mapAfter comparator updates key =
          DictionaryUpdate.mapAfter comparator others key) := by
  rcases (Represents.new : Represents comparator _ _).run updates with
    ⟨final, ran, represents⟩
  rcases (Represents.new : Represents comparator _ _).run others with
    ⟨other, ranOther, representsOther⟩
  refine ⟨final, other, ran, ranOther, ?_⟩
  rw [isEqual_iff represents.valid representsOther.valid]
  simp only [represents.get, representsOther.get]
  rfl

theorem run_isEqual_reordered :
    let updates : List (DictionaryUpdate String Nat) :=
      [.insertKey "00" 1, .insertKey "a" 2]
    let others : List (DictionaryUpdate String Nat) :=
      [.insertKey "a" 2, .insertKey "c" 3, .insertKey "-0" 1, .removeKey "c"]
    ∃ final other, run FUtilities.compareKey new updates = some final ∧
      run FUtilities.compareKey new others = some other ∧
      (final.isEqual FUtilities.compareKey other = true ↔
        ∀ key, DictionaryUpdate.mapAfter FUtilities.compareKey updates key =
          DictionaryUpdate.mapAfter FUtilities.compareKey others key) :=
  run_isEqual _ _

/-! ## The shape of the tree -/

/-- After any insertions and removals, an array is short, and a tree passes
its check and has no path longer than twice the logarithm of its size. -/
theorem run_balanced (updates : List (DictionaryUpdate Key Value)) :
    ∃ final, run comparator new updates = some final ∧
      (∀ self, final = .array self →
        self.entries.length ≤ sortedDictionaryArrayToRbTreeSizeThreshold) ∧
      ∀ self, final = .tree self →
        self.root.isRed = false ∧
        self.root.checkMaxDepth = some true ∧
        self.root.height ≤ 2 * Nat.log2 (self.count + 1) := by
  rcases (Represents.new : Represents comparator _ _).run updates with
    ⟨final, ran, represents⟩
  refine ⟨final, ran, ?_, ?_⟩
  · rintro self rfl
    cases represents.valid with
    | array _ small => exact small
  · rintro self rfl
    cases represents.valid with
    | tree valid =>
        rcases valid.balanced with ⟨depth, balanced⟩
        exact ⟨balanced.isRed_eq, balanced.checkMaxDepth,
          balanced.height_le_log⟩

/-- The keys 0, 1, …, each inserted with itself. -/
def ascending (count : Nat) : List (DictionaryUpdate Nat Nat) :=
  (List.range count).map fun key => .insertKey key key

theorem run_balanced_ascending :
    ∃ final, run compare new (ascending 26) = some final ∧
      (∀ self, final = .array self →
        self.entries.length ≤ sortedDictionaryArrayToRbTreeSizeThreshold) ∧
      ∀ self, final = .tree self →
        self.root.isRed = false ∧
        self.root.checkMaxDepth = some true ∧
        self.root.height ≤ 2 * Nat.log2 (self.count + 1) :=
  run_balanced (ascending 26)

/-! ## Enumerations -/

/-- An enumeration from a start key has the keys on its side of the start key,
and the predecessor of a key is the last one before it. -/
theorem run_enumerates (updates : List (DictionaryUpdate Key Value)) :
    ∃ final, run comparator new updates = some final ∧
      ∀ startKey,
        final.keysFrom comparator startKey =
          (final.allKeys comparator).filter
            (fun key => (comparator key startKey).isGE) ∧
        final.reverseKeysFrom comparator startKey =
          ((final.allKeys comparator).filter
            fun key => (comparator key startKey).isLE).reverse ∧
        final.getPredecessorKey comparator startKey =
          if final.get comparator startKey = none then none
          else some ((final.allKeys comparator).filter
            fun key => (comparator key startKey).isLT).getLast? := by
  rcases (Represents.new : Represents comparator _ _).run updates with
    ⟨final, ran, represents⟩
  refine ⟨final, ran, ?_⟩
  intro startKey
  have valid := represents.valid
  have selected (kept : Ordering → Bool) :
      (select comparator kept startKey final.entries).map Prod.fst =
        (final.entries.map Prod.fst).filter
          fun key => kept (comparator key startKey) := by
    rw [List.filter_map]
    rfl
  rw [valid.keysFrom, valid.reverseKeysFrom, valid.getPredecessorKey,
    valid.allKeys, selected, selected, SortedAssoc.predecessor,
    ← List.getLast?_map, selected, ← valid.get]
  refine ⟨rfl, rfl, ?_⟩
  cases final.get comparator startKey with
  | none => rfl
  | some value => rfl

theorem run_enumerates_ascending :
    ∃ final, run compare new (ascending 26) = some final ∧
      ∀ startKey,
        final.keysFrom compare startKey =
          (final.allKeys compare).filter
            (fun key => (compare key startKey).isGE) ∧
        final.reverseKeysFrom compare startKey =
          ((final.allKeys compare).filter
            fun key => (compare key startKey).isLE).reverse ∧
        final.getPredecessorKey compare startKey =
          if final.get compare startKey = none then none
          else some ((final.allKeys compare).filter
            fun key => (compare key startKey).isLT).getLast? :=
  run_enumerates (ascending 26)

/-- A reverse enumeration without a start key has all keys if the dictionary
never had more than 25 at a time, and otherwise none. -/
theorem run_reverseKeys (updates : List (DictionaryUpdate Key Value)) :
    ∃ final, run comparator new updates = some final ∧
      ((∀ before, before <+: updates →
          ∀ between, run comparator new before = some between →
            between.count ≤ sortedDictionaryArrayToRbTreeSizeThreshold) →
        final.reverseKeys comparator =
          (final.allKeys comparator).reverse) ∧
      ((∃ before, before <+: updates ∧
          ∃ between, run comparator new before = some between ∧
            sortedDictionaryArrayToRbTreeSizeThreshold < between.count) →
        final.reverseKeys comparator = []) := by
  rcases (Represents.new : Represents comparator _ _).run updates with
    ⟨final, ran, _⟩
  have kind := isArray_iff updates (Valid.new : Valid comparator new) ran
  refine ⟨final, ran, ?_, ?_⟩
  · intro few
    rcases kind.mpr few with ⟨array, rfl⟩
    rfl
  · rintro ⟨before, first, between, reached, many⟩
    cases final with
    | array array =>
        have few := kind.mp ⟨array, rfl⟩ before first between reached
        omega
    | tree tree =>
        exact FTreeSortedDictionary.reverseKeyEnumerator_allObjects

theorem run_reverseKeys_ascending :
    ∃ final, run compare new (ascending 26) = some final ∧
      ((∀ before, before <+: ascending 26 →
          ∀ between, run compare new before = some between →
            between.count ≤ sortedDictionaryArrayToRbTreeSizeThreshold) →
        final.reverseKeys compare = (final.allKeys compare).reverse) ∧
      ((∃ before, before <+: ascending 26 ∧
          ∃ between, run compare new before = some between ∧
            sortedDictionaryArrayToRbTreeSizeThreshold < between.count) →
        final.reverseKeys compare = []) :=
  run_reverseKeys (ascending 26)

end FImmutableSortedDictionary

end Firebase
end PocketChef
