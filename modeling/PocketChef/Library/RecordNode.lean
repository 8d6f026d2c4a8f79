import Mathlib.Data.Set.List
import Mathlib.Logic.Function.Basic
import PocketChef.Library.KeyedTree

/-!
# Nodes that store records by identifier

Each child of the node holds the fields of one record, under the key that
`encode` gives to the identifier of the record.  A write either sets the
record of an identifier or removes it.  After any sequence of writes the node
holds for each identifier what the last write to it left.
-/

namespace KeyedTree

universe u v w x

variable {Key : Type u} {Value : Type v} [DecidableEq Key]
variable {Id : Type w} {Record : Type x} [DecidableEq Id]

/-- What the last of the writes to `id` left there. -/
def lastWrite (writes : List (Id × Option Record)) (id : Id) :
    Option Record :=
  ((writes.filter fun write => write.1 = id).getLast?).bind Prod.snd

theorem lastWrite_append_singleton
    (writes : List (Id × Option Record)) (write : Id × Option Record) :
    lastWrite (writes ++ [write]) =
      Function.update (lastWrite writes) write.1 write.2 := by
  funext id
  by_cases same : write.1 = id
  · subst same
    rw [Function.update_self, lastWrite, List.filter_append]
    simp
  · have different : id ≠ write.1 := fun equal => same equal.symm
    rw [Function.update_of_ne different, lastWrite, List.filter_append]
    simp [same, lastWrite]

theorem mem_of_lastWrite {writes : List (Id × Option Record)} {id : Id}
    {record : Record} (stored : lastWrite writes id = some record) :
    (id, some record) ∈ writes := by
  rcases Option.bind_eq_some_iff.mp stored with ⟨write, last, left⟩
  have member := List.mem_filter.mp (List.mem_of_getLast? last)
  have same : write.1 = id := by
    simpa using member.2
  rw [← same, ← left]
  exact member.1

section Node

variable (path : List Key) (encode : Id → Key)
variable (fields : Record → List (Key × Value))

def writeRecord (tree : Tree Key Value) (write : Id × Option Record) :
    Tree Key Value :=
  match write.2 with
  | none => remove tree (path ++ [encode write.1])
  | some record => setFields tree (path ++ [encode write.1]) (fields record)

/-- The children of the node are the records of `content`, and each child has
the fields of its record. -/
structure Represents
    (tree : Tree Key Value) (content : Id → Option Record) : Prop where
  keys :
    ∀ key, Exists tree (path ++ [key]) ↔
      ∃ id, encode id = key ∧ (content id).isSome = true
  fields :
    ∀ id record, content id = some record →
      ∀ name, lookup tree (path ++ [encode id] ++ [name]) =
        (fields record).lookup name

variable {path encode fields}

omit [DecidableEq Id] in
theorem represents_empty {tree : Tree Key Value}
    (absent : ¬ Exists tree path) :
    Represents path encode fields tree fun _ => none where
  keys := by
    intro key
    constructor
    · intro present
      exact absurd present (not_exists_child absent key)
    · rintro ⟨id, _, stored⟩
      cases stored
  fields := by
    intro id record stored
    cases stored

section Writes

variable (injective : Function.Injective encode)
include injective

theorem Represents.remove {tree : Tree Key Value}
    {content : Id → Option Record}
    (represents : Represents path encode fields tree content) (id : Id) :
    Represents path encode fields
      (KeyedTree.remove tree (path ++ [encode id]))
      (Function.update content id none) where
  keys := by
    intro key
    rw [exists_remove_child_iff, represents.keys]
    constructor
    · rintro ⟨different, other, rfl, stored⟩
      have apart : other ≠ id := fun equal =>
        different (congrArg encode equal)
      exact ⟨other, rfl, by rwa [Function.update_of_ne apart]⟩
    · rintro ⟨other, rfl, stored⟩
      by_cases same : other = id
      · subst same
        rw [Function.update_self] at stored
        cases stored
      · rw [Function.update_of_ne same] at stored
        exact ⟨fun equal => same (injective equal), other, rfl, stored⟩
  fields := by
    intro other record stored name
    by_cases same : other = id
    · subst same
      rw [Function.update_self] at stored
      cases stored
    · rw [Function.update_of_ne same] at stored
      rw [lookup_remove_sibling fun equal => same (injective equal)]
      exact represents.fields other record stored name

theorem Represents.set {tree : Tree Key Value}
    {content : Id → Option Record}
    (represents : Represents path encode fields tree content)
    (id : Id) {record : Record} (nonempty : fields record ≠ []) :
    Represents path encode fields
      (setFields tree (path ++ [encode id]) (fields record))
      (Function.update content id (some record)) where
  keys := by
    intro key
    rw [exists_setFields_child_iff nonempty, represents.keys]
    constructor
    · rintro (rfl | ⟨other, rfl, stored⟩)
      · exact ⟨id, rfl, by rw [Function.update_self]; rfl⟩
      · by_cases same : other = id
        · subst same
          exact ⟨other, rfl, by rw [Function.update_self]; rfl⟩
        · exact ⟨other, rfl, by rwa [Function.update_of_ne same]⟩
    · rintro ⟨other, rfl, stored⟩
      by_cases same : other = id
      · exact Or.inl (congrArg encode same)
      · rw [Function.update_of_ne same] at stored
        exact Or.inr ⟨other, rfl, stored⟩
  fields := by
    intro other found stored name
    by_cases same : other = id
    · subst same
      rw [Function.update_self] at stored
      cases stored
      exact lookup_setFields_self
    · rw [Function.update_of_ne same] at stored
      rw [lookup_setFields_sibling fun equal => same (injective equal)]
      exact represents.fields other found stored name

theorem Represents.write {tree : Tree Key Value}
    {content : Id → Option Record}
    (nonempty : ∀ record, fields record ≠ [])
    (represents : Represents path encode fields tree content)
    (write : Id × Option Record) :
    Represents path encode fields
      (writeRecord path encode fields tree write)
      (Function.update content write.1 write.2) := by
  rcases write with ⟨id, left⟩
  cases left with
  | none =>
      exact represents.remove injective id
  | some record =>
      exact represents.set injective id (nonempty record)

/-- After any writes to an absent node it holds what the last write to each
identifier left. -/
theorem represents_lastWrite {tree : Tree Key Value}
    (nonempty : ∀ record, fields record ≠ [])
    (absent : ¬ Exists tree path) (writes : List (Id × Option Record)) :
    Represents path encode fields
      (writes.foldl (writeRecord path encode fields) tree)
      (lastWrite writes) := by
  induction writes using List.reverseRecOn with
  | nil =>
      exact represents_empty absent
  | append_singleton earlier write inductionHypothesis =>
      rw [List.foldl_concat, lastWrite_append_singleton]
      exact inductionHypothesis.write injective nonempty write

omit [DecidableEq Id] in
/-- Every enumeration of the children lists each stored identifier once. -/
theorem Represents.exists_ids {tree : Tree Key Value}
    {content : Id → Option Record}
    (represents : Represents path encode fields tree content)
    (le : Key → Key → Bool) :
    ∃ ids : List Id,
      sortedKeys le tree path = ids.map encode ∧ ids.Nodup ∧
        ∀ id, id ∈ ids ↔ (content id).isSome = true := by
  have enumerated := List.mergeSort_perm (childKeys tree path) le
  have encoded :
      sortedKeys le tree path ∈ Set.range (List.map encode) := by
    rw [Set.range_list_map]
    intro key member
    have child := mem_childKeys_iff.mp (enumerated.mem_iff.mp member)
    rcases (represents.keys key).mp child with ⟨id, same, _⟩
    exact ⟨id, same⟩
  rcases encoded with ⟨ids, listed⟩
  have unrepeated : (ids.map encode).Nodup := by
    rw [listed]
    exact enumerated.nodup_iff.mpr (childKeys_nodup tree path)
  refine ⟨ids, listed.symm, unrepeated.of_map encode, ?_⟩
  intro id
  rw [← List.mem_map_of_injective injective, listed, sortedKeys,
    enumerated.mem_iff, mem_childKeys_iff, represents.keys]
  constructor
  · rintro ⟨other, same, stored⟩
    rwa [injective same] at stored
  · intro stored
    exact ⟨id, rfl, stored⟩

end Writes

end Node

end KeyedTree
