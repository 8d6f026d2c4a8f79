import Mathlib.Data.List.Perm.Basic
import Mathlib.Data.List.Dedup

/-!
# A store of objects with identities

Objects are kept in the order in which they were inserted.  Every object has
an identity that no other object of the store has and that no later object
will get; it is the identity, not the attributes, that names an object.

* `insert` adds an object with a new identity;
* `delete` removes the object with a given identity;
* `clear` removes every object.

The attributes of the store as a multiset are what `delete_perm` and
`attributes_insert` are about.
-/

namespace ObjectStore

universe u

/-- An object as a fetch returns it. -/
structure ManagedObject (Attributes : Type u) where
  objectID : Nat
  attributes : Attributes
  deriving DecidableEq

structure Store (Attributes : Type u) where
  objects : List (ManagedObject Attributes)
  nextID : Nat
  fresh : ∀ object ∈ objects, object.objectID < nextID
  distinct : (objects.map ManagedObject.objectID).Nodup
  deriving DecidableEq

namespace Store

variable {Attributes : Type u}

def empty : Store Attributes where
  objects := []
  nextID := 0
  fresh := fun _ member => nomatch member
  distinct := List.nodup_nil

/-- The attributes of all objects, in store order. -/
def attributes (store : Store Attributes) : List Attributes :=
  store.objects.map ManagedObject.attributes

def insert (store : Store Attributes) (attributes : Attributes) :
    Store Attributes where
  objects := store.objects ++ [⟨store.nextID, attributes⟩]
  nextID := store.nextID + 1
  fresh := by
    intro object member
    rcases List.mem_append.mp member with old | new
    · exact Nat.lt_succ_of_lt (store.fresh object old)
    · rw [List.mem_singleton.mp new]
      exact Nat.lt_succ_self store.nextID
  distinct := by
    rw [List.map_append, List.map_singleton]
    refine List.Nodup.append store.distinct (List.nodup_singleton _) ?_
    intro objectID old new
    obtain ⟨object, member, rfl⟩ := List.mem_map.mp old
    have below := store.fresh object member
    rw [List.mem_singleton.mp new] at below
    exact Nat.lt_irrefl _ below

def delete (store : Store Attributes) (objectID : Nat) :
    Store Attributes where
  objects := store.objects.filter fun object => object.objectID ≠ objectID
  nextID := store.nextID
  fresh := fun object member =>
    store.fresh object (List.mem_of_mem_filter member)
  distinct :=
    store.distinct.sublist (List.filter_sublist.map ManagedObject.objectID)

def clear (store : Store Attributes) : Store Attributes where
  objects := []
  nextID := store.nextID
  fresh := fun _ member => nomatch member
  distinct := List.nodup_nil

/-- The results of a fetch with a predicate: the objects that meet it, each
once, in whatever order the store answers. -/
def Fetched (store : Store Attributes) (predicate : Attributes → Bool)
    (results : List (ManagedObject Attributes)) : Prop :=
  results.Perm
    (store.objects.filter fun object => predicate object.attributes)

/-- A fetch that answers in store order. -/
def fetch (store : Store Attributes) (predicate : Attributes → Bool) :
    List (ManagedObject Attributes) :=
  store.objects.filter fun object => predicate object.attributes

instance [DecidableEq Attributes]
    (store : Store Attributes) (predicate : Attributes → Bool)
    (results : List (ManagedObject Attributes)) :
    Decidable (store.Fetched predicate results) :=
  inferInstanceAs (Decidable (List.Perm _ _))

theorem attributes_insert (store : Store Attributes) (value : Attributes) :
    (store.insert value).attributes = store.attributes ++ [value] :=
  List.map_append

theorem attributes_foldl_insert
    (store : Store Attributes) (values : List Attributes) :
    (values.foldl insert store).attributes = store.attributes ++ values := by
  induction values generalizing store with
  | nil =>
      exact (List.append_nil _).symm
  | cons value rest inductionHypothesis =>
      rw [List.foldl_cons, inductionHypothesis, attributes_insert,
        List.append_assoc, List.singleton_append]

/-- Deleting by identity takes away one object. -/
theorem objects_delete_perm {store : Store Attributes}
    {object : ManagedObject Attributes} (member : object ∈ store.objects) :
    store.objects.Perm (object :: (store.delete object.objectID).objects) := by
  obtain ⟨before, after, split⟩ := List.append_of_mem member
  have distinct := store.distinct
  rw [split, List.map_append, List.map_cons] at distinct
  have apart := List.nodup_middle.mp distinct
  have notTaken :
      ∀ other ∈ before ++ after, other.objectID ≠ object.objectID := by
    intro other inRest same
    apply (List.nodup_cons.mp apart).1
    rw [← List.map_append, ← same]
    exact List.mem_map_of_mem inRest
  have kept :
      (store.delete object.objectID).objects = before ++ after := by
    have whole :
        (before ++ after).filter
            (fun other => other.objectID ≠ object.objectID) =
          before ++ after :=
      List.filter_eq_self.mpr fun other inRest =>
        decide_eq_true (notTaken other inRest)
    change store.objects.filter _ = _
    rw [split, List.filter_append, List.filter_cons_of_neg (by simp),
      ← List.filter_append]
    exact whole
  rw [kept, split]
  exact List.perm_middle

theorem attributes_delete_perm {store : Store Attributes}
    {object : ManagedObject Attributes} (member : object ∈ store.objects) :
    store.attributes.Perm
      (object.attributes ::
        (store.delete object.objectID).attributes) :=
  (objects_delete_perm member).map ManagedObject.attributes

theorem fetch_fetched (store : Store Attributes)
    (predicate : Attributes → Bool) :
    store.Fetched predicate (store.fetch predicate) :=
  List.Perm.refl _

/-- Objects of a store are told apart by their identities. -/
theorem eq_of_objectID_eq {store : Store Attributes}
    {first second : ManagedObject Attributes}
    (firstMember : first ∈ store.objects)
    (secondMember : second ∈ store.objects)
    (same : first.objectID = second.objectID) : first = second :=
  List.inj_on_of_nodup_map store.distinct firstMember secondMember same

section FirstMatch

variable [DecidableEq Attributes]

theorem objects_delete {store : Store Attributes}
    {object : ManagedObject Attributes} (member : object ∈ store.objects) :
    (store.delete object.objectID).objects =
      store.objects.filter fun other => other ≠ object := by
  apply List.filter_congr
  intro other otherMember
  rw [decide_eq_decide]
  apply not_congr
  constructor
  · exact eq_of_objectID_eq otherMember member
  · intro equal
    rw [equal]

/-- Deleting another object keeps this one. -/
theorem mem_delete {store : Store Attributes}
    {kept deleted : ManagedObject Attributes}
    (keptMember : kept ∈ store.objects)
    (deletedMember : deleted ∈ store.objects)
    (different : kept ≠ deleted) :
    kept ∈ (store.delete deleted.objectID).objects := by
  rw [objects_delete deletedMember]
  exact List.mem_filter.mpr ⟨keptMember, decide_eq_true different⟩

theorem find?_eq_some_iff_takeWhile
    {objects : List (ManagedObject Attributes)}
    {test : ManagedObject Attributes → Bool}
    {object : ManagedObject Attributes}
    (member : object ∈ objects) (passes : test object = true) :
    objects.find? test = some object ↔
      ∀ other ∈ objects.takeWhile (fun item => item ≠ object),
        test other = false := by
  induction objects with
  | nil =>
      cases member
  | cons head tail inductionHypothesis =>
      by_cases same : head = object
      · subst same
        rw [List.find?_cons_of_pos passes,
          List.takeWhile_cons_of_neg (by simp)]
        exact iff_of_true rfl (List.forall_mem_nil _)
      · have inTail : object ∈ tail :=
          (List.mem_cons.mp member).resolve_left (Ne.symm same)
        rw [List.takeWhile_cons_of_pos (by simpa using same),
          List.forall_mem_cons, ← inductionHypothesis inTail]
        cases found : test head with
        | true => simp [found, same]
        | false => simp [found]

/-- The first result of a fetch in store order is the object before which
the store has no other match. -/
theorem head?_fetch_eq_some_iff {store : Store Attributes}
    {predicate : Attributes → Bool} {object : ManagedObject Attributes}
    (member : object ∈ store.objects)
    (passes : predicate object.attributes = true) :
    (store.fetch predicate).head? = some object ↔
      ∀ other ∈ store.objects.takeWhile (fun item => item ≠ object),
        predicate other.attributes = false := by
  rw [fetch, List.head?_filter]
  exact find?_eq_some_iff_takeWhile member passes

end FirstMatch

theorem Fetched.mem {store : Store Attributes}
    {predicate : Attributes → Bool}
    {results : List (ManagedObject Attributes)}
    (fetched : store.Fetched predicate results)
    {object : ManagedObject Attributes} (member : object ∈ results) :
    object ∈ store.objects ∧ predicate object.attributes = true := by
  have found := fetched.mem_iff.mp member
  exact List.mem_filter.mp found

/-- A fetch without a predicate returns the whole store. -/
theorem Fetched.attributes_perm {store : Store Attributes}
    {results : List (ManagedObject Attributes)}
    (fetched : store.Fetched (fun _ => true) results) :
    (results.map ManagedObject.attributes).Perm store.attributes := by
  have all := List.Perm.map ManagedObject.attributes fetched
  rwa [List.filter_true] at all

end Store
end ObjectStore
