import PocketChef.Firebase.Database
import PocketChef.Library.Issuing
import PocketChef.Library.SwiftArray

/-!
# The remote node of a saved shopping list

`SavedLists/<uid>` keeps one child for each ingredient, under the keys
`0, 1, 2, …`.  Two controllers write the node with the same loop and one of
them reads it back.

`Holds` says that a node stores a list.  Writing the entries of a list over a
node overwrites as many entries as the list has and leaves the tail of a
longer list in place.
-/

namespace PocketChef

open KeyedTree Firebase FUtilities Issuing

structure Ingredient where
  name : String
  amount : FiniteDouble
  unit : String
  deriving DecidableEq

namespace Ingredient

/-- The amount `1.0` of the two ingredients below. -/
def one : FiniteDouble :=
  ⟨0x3FF0000000000000#64, by decide⟩

def flour : Ingredient :=
  { name := "flour", amount := one, unit := "g" }

def milk : Ingredient :=
  { name := "milk", amount := one, unit := "ml" }

end Ingredient

namespace SavedLists

/-- The title and the amount and unit that the cell of a row shows, in both
tables of ingredients. -/
def cellForRow (list : List Ingredient) (row : Nat) :
    Option (String × FiniteDouble × String) := do
  let item ← SwiftArray.get list row
  some (item.name, item.amount, item.unit)

theorem exists_cellForRow_iff (list : List Ingredient) (row : Nat) :
    (∃ cell, cellForRow list row = some cell) ↔ row < list.length := by
  constructor
  · rintro ⟨cell, shown⟩
    rcases Option.bind_eq_some_iff.mp shown with ⟨item, found, _⟩
    exact Int.ofNat_lt.mp (SwiftArray.in_range_of_get_eq_some found).2
  · intro inRange
    rcases (SwiftArray.exists_get_iff list row).mpr
      ⟨Int.natCast_nonneg row, Int.ofNat_lt.mpr inRange⟩ with ⟨item, found⟩
    exact ⟨_, Option.bind_eq_some_iff.mpr ⟨item, found, rfl⟩⟩

/-- The dictionary stored for one ingredient. -/
def fields (item : Ingredient) : List (String × Value) :=
  [("item", .string item.name), ("value", .number item.amount),
    ("unit", .string item.unit)]

/-- The guard of the loop in `loadFrequentList`. -/
def decodeItem (item : DataSnapshot) : Option Ingredient := do
  let name ← (← item.field "item").asString
  let amount ← (← item.field "value").asDouble
  let unit ← (← item.field "unit").asString
  some { name := name, amount := amount, unit := unit }

/-- The loop `for i in 0...list.count-1` that both controllers run. -/
def writeEntries (currentUid : String) (list : List Ingredient) :
    Effect Write PUnit := do
  let indices ←
    Effect.check (SwiftArray.closedRange 0 ((list.length : Int) - 1))
  forM indices fun i => do
    let entry ← Effect.check <| Except.toOption <| do
      let lists ← reference.child "SavedLists"
      let own ← lists.child currentUid
      own.child (toString i)
    let item ← Effect.check (SwiftArray.get list i)
    Effect.issue (.setValue entry.path (fields item))

/-- The loop of `loadFrequentList`: well-formed children are appended and all
others are skipped. -/
def appendChildren (list : List Ingredient) (snapshot : DataSnapshot) :
    List Ingredient :=
  snapshot.children.foldl
    (fun list child =>
      match decodeItem child.2 with
      | none => list
      | some item => list ++ [item])
    list

def listPath (currentUid : String) : Path :=
  "SavedLists" :: pathWithString currentUid

/-- The writes of the loop for a list whose first entry has number `start`. -/
def entryWrites
    (path : Path) (start : Nat) (list : List Ingredient) : List Write :=
  (list.zipIdx start).map fun entry =>
    .setValue (path ++ [key entry.2]) (fields entry.1)

/-! ## What the loops do -/

theorem isCollection : IsCollection "SavedLists" where
  piece := by decide
  plain := by decide
  front := ⟨'S', by decide⟩

/-- `child("SavedLists/\(currentUid)")`. -/
theorem reference_child_eq (currentUid : String) :
    (reference.child ("SavedLists" ++ "/" ++ currentUid)).toOption =
      if FValidation.isPlain currentUid then some ⟨listPath currentUid⟩
      else none :=
  isCollection.child_slash currentUid

theorem entry_eq (currentUid : String) (index : Nat) :
    (do
      let lists ← reference.child "SavedLists"
      let own ← lists.child currentUid
      own.child (toString (index : Int))).toOption =
      if FValidation.isValidPathString currentUid then
        some ⟨listPath currentUid ++ [key index]⟩
      else none :=
  isCollection.child_child currentUid index

/-- On the empty list the range of the loop traps before any write. -/
theorem writeEntries_nil (currentUid : String) :
    writeEntries currentUid [] = ⟨[], none⟩ := by
  rw [writeEntries, SwiftArray.closedRange_count]
  exact Effect.check_none_bind _

/-- The loop over the entries and their numbers. -/
theorem writeEntries_eq_forM
    (currentUid : String) {list : List Ingredient} (nonempty : list ≠ []) :
    writeEntries currentUid list =
      (forM list.zipIdx fun entry => do
        let child ← Effect.check <|
          if FValidation.isValidPathString currentUid then
            some (DatabaseReference.mk
              (listPath currentUid ++ [key entry.2]))
          else none
        Effect.issue (.setValue child.path (fields entry.1))) := by
  have positive : list.length ≠ 0 := by
    simpa using nonempty
  have indices :
      (List.range list.length).map (fun index : Nat => (index : Int)) =
        list.zipIdx.map fun entry => ((entry.2 : Nat) : Int) := by
    rw [List.range_eq_range', ← List.zipIdx_map_snd, List.map_map]
    rfl
  rw [writeEntries, SwiftArray.closedRange_count, if_neg positive,
    Effect.check_some_bind, indices, List.forM_map]
  apply Effect.forM_congr
  intro entry member
  have read : list[entry.2]? = some entry.1 :=
    List.mem_zipIdx_iff_getElem?.mp member
  rw [entry_eq, SwiftArray.get_natCast, read]
  simp only [Effect.check_some_bind]

theorem writeEntries_of_ne_nil
    (currentUid : String) {list : List Ingredient} (nonempty : list ≠ [])
    (valid : FValidation.isValidPathString currentUid = true) :
    writeEntries currentUid list =
      ⟨entryWrites (listPath currentUid) 0 list, some ⟨⟩⟩ := by
  rw [writeEntries_eq_forM currentUid nonempty]
  apply Effect.forM_issue
  intro entry member
  rw [if_pos valid, Effect.check_some_bind]

/-- Under a uid that names no child nothing is written. -/
theorem writeEntries_of_invalid (currentUid : String)
    (list : List Ingredient)
    (invalid : FValidation.isValidPathString currentUid = false) :
    writeEntries currentUid list = ⟨[], none⟩ := by
  cases list with
  | nil => exact writeEntries_nil currentUid
  | cons first others =>
      rw [writeEntries_eq_forM currentUid (List.cons_ne_nil first others),
        List.zipIdx_cons, List.forM_cons, invalid]
      rfl

theorem path_of_mem_entryWrites {path : Path} {start : Nat}
    {list : List Ingredient} {write : Write}
    (member : write ∈ entryWrites path start list) :
    ∃ index, write.path = path ++ [key index] := by
  rcases List.mem_map.mp member with ⟨entry, _, rfl⟩
  exact ⟨entry.2, rfl⟩

/-- Whether or not it traps, the loop writes below the node only. -/
theorem path_of_mem_writeEntries {currentUid : String}
    {list : List Ingredient} {write : Write}
    (member : write ∈ (writeEntries currentUid list).issued) :
    ∃ index, write.path = listPath currentUid ++ [key index] := by
  by_cases valid : FValidation.isValidPathString currentUid = true
  · cases list with
    | nil =>
        rw [writeEntries_nil] at member
        cases member
    | cons first others =>
        rw [writeEntries_of_ne_nil currentUid
          (List.cons_ne_nil first others) valid] at member
        exact path_of_mem_entryWrites member
  · rw [writeEntries_of_invalid currentUid list
      (Bool.eq_false_iff.mpr valid)] at member
    cases member

theorem appendChildren_eq (list : List Ingredient) (snapshot : DataSnapshot) :
    appendChildren list snapshot =
      list ++ snapshot.children.filterMap fun child =>
        decodeItem child.2 := by
  apply SwiftArray.foldl_append_decoded
    (fun child : String × DataSnapshot => decodeItem child.2)
    (fun list items => list ++ items)
  · intro list
    exact List.append_nil list
  · intro list child items
    cases decodeItem child.2 with
    | none => rfl
    | some item => exact List.append_assoc list [item] items

/-! ## Nodes that store a list -/

/-- The node at `path` has one child for each entry of the list, under the
number of the entry, and nothing else. -/
structure Holds
    (database : Database) (path : Path) (list : List Ingredient) : Prop where
  keys :
    ∀ name, Exists database (path ++ [name]) ↔
      ∃ index < list.length, key index = name
  items :
    ∀ index item, list[index]? = some item →
      decodeItem ⟨database, path ++ [key index]⟩ = some item

theorem holds_nil_of_not_exists {database : Database} {path : Path}
    (absent : ¬ Exists database path) : Holds database path [] where
  keys := by
    intro name
    constructor
    · intro present
      exact absurd present (not_exists_child absent name)
    · intro numbered
      obtain ⟨index, inRange, _⟩ := numbered
      cases inRange
  items := by
    intro index item found
    cases found

theorem holds_remove (database : Database) (path : Path) :
    Holds (remove database path) path [] :=
  holds_nil_of_not_exists (not_exists_remove (List.prefix_refl path))

/-- What the setter stores under a key is what the reader decodes there. -/
theorem decodeItem_setFields
    (database : Database) (path : Path) (item : Ingredient) :
    decodeItem ⟨setFields database path (fields item), path⟩ = some item := by
  simp only [decodeItem, DataSnapshot.field, lookup_setFields_self]
  rfl

theorem decodeItem_setFields_sibling
    {database : Database} {path : Path} {set name : String}
    {values : List (String × Value)} (different : name ≠ set) :
    decodeItem
        ⟨setFields database (path ++ [set]) values, path ++ [name]⟩ =
      decodeItem ⟨database, path ++ [name]⟩ := by
  simp only [decodeItem, DataSnapshot.field,
    lookup_setFields_sibling different]

/-- Setting the entry number `start` overwrites it, or appends it when it is
the first free number. -/
theorem Holds.setEntry {database : Database} {path : Path}
    {list : List Ingredient} {start : Nat} (item : Ingredient)
    (holds : Holds database path list) (inRange : start ≤ list.length) :
    Holds (setFields database (path ++ [key start]) (fields item)) path
      (list.take start ++ item :: list.drop (start + 1)) where
  keys := by
    intro name
    rw [exists_setFields_child_iff (by simp [fields]), holds.keys]
    have size :
        (list.take start ++ item :: list.drop (start + 1)).length =
          max list.length (start + 1) := by
      simp only [List.length_append, List.length_take, List.length_cons,
        List.length_drop]
      omega
    rw [size]
    constructor
    · intro known
      rcases known with set | ⟨index, below, numbered⟩
      · exact ⟨start, by omega, set.symm⟩
      · exact ⟨index, by omega, numbered⟩
    · intro numbered
      obtain ⟨index, below, rfl⟩ := numbered
      by_cases same : index = start
      · exact Or.inl (congrArg key same)
      · exact Or.inr ⟨index, by omega, rfl⟩
  items := by
    intro index other found
    by_cases same : index = start
    · subst same
      have located : item = other := by
        rw [List.getElem?_append_right (by simp)] at found
        simpa [inRange] using found
      rw [decodeItem_setFields, located]
    · have different : key index ≠ key start := fun equal =>
        same (key_injective equal)
      rw [decodeItem_setFields_sibling different]
      apply holds.items
      rw [← found]
      by_cases before : index < start
      · rw [List.getElem?_append_left (by simp; omega),
          List.getElem?_take_of_lt before]
      · have after : start + 1 ≤ index := by omega
        rw [List.getElem?_append_right (by simp; omega), List.length_take,
          Nat.min_eq_left inRange]
        obtain ⟨offset, rfl⟩ := Nat.exists_eq_add_of_le after
        have position : start + 1 + offset - start = offset + 1 := by omega
        rw [position, List.getElem?_cons_succ, List.getElem?_drop]

/-- The loop overwrites the first entries and keeps the tail. -/
theorem Holds.writeEntries {path : Path} :
    ∀ {items : List Ingredient} {database : Database}
      {list : List Ingredient} {start : Nat},
      Holds database path list → start ≤ list.length →
      Holds (Write.applyAll database (entryWrites path start items)) path
        (list.take start ++ items ++ list.drop (start + items.length))
  | [], database, list, start, holds, _ => by
      simpa [entryWrites] using holds
  | item :: rest, database, list, start, holds, inRange => by
      have first := holds.setEntry item inRange
      have size :
          start + 1 ≤
            (list.take start ++ item :: list.drop (start + 1)).length := by
        simp only [List.length_append, List.length_take, List.length_cons,
          List.length_drop]
        omega
      have others := @Holds.writeEntries path rest _ _ _ first size
      have taken :
          (list.take start ++ item :: list.drop (start + 1)).take
              (start + 1) =
            list.take start ++ [item] := by
        rw [List.take_append]
        simp [inRange]
      have dropped :
          (list.take start ++ item :: list.drop (start + 1)).drop
              (start + 1 + rest.length) =
            list.drop (start + (item :: rest).length) := by
        rw [List.drop_append]
        have position :
            start + 1 + rest.length - (list.take start).length =
              rest.length + 1 := by
          rw [List.length_take]
          omega
        rw [List.drop_eq_nil_of_le (by rw [List.length_take]; omega),
          position, List.nil_append, List.drop_succ_cons, List.drop_drop,
          List.length_cons]
        congr 1
        omega
      rw [taken, dropped] at others
      simpa [entryWrites, Write.apply] using others

/-! ## Reading a node -/

theorem filterMap_getElem_range {α : Type} (items : List α) :
    (List.range items.length).filterMap (fun index => items[index]?) =
      items := by
  induction items with
  | nil =>
      rfl
  | cons head tail inductionHypothesis =>
      rw [List.length_cons, List.range_succ_eq_map, List.filterMap_cons,
        List.filterMap_map]
      simpa [Function.comp_def] using inductionHypothesis

theorem Holds.decode_numbered {database : Database} {path : Path}
    {list : List Ingredient} (holds : Holds database path list) :
    (((List.range list.length).map key).map fun name =>
        (name, (⟨database, path ++ [name]⟩ : DataSnapshot))).filterMap
      (fun child => decodeItem child.2) = list := by
  have each :
      ∀ index ∈ List.range list.length,
        decodeItem ⟨database, path ++ [key index]⟩ = list[index]? := by
    intro index member
    rw [List.mem_range] at member
    rw [List.getElem?_eq_getElem member]
    exact holds.items index _ (List.getElem?_eq_getElem member)
  rw [List.filterMap_map, List.filterMap_map]
  calc
    _ = (List.range list.length).filterMap fun index => list[index]? :=
      List.filterMap_congr each
    _ = list := filterMap_getElem_range list

theorem Holds.appendChildren {database : Database} {path : Path}
    {list : List Ingredient} (holds : Holds database path list)
    (numeric : KeysNumeric list.length) (start : List Ingredient) :
    appendChildren start ⟨database, path⟩ = start ++ list := by
  have enumerated :=
    sortedKeys_numbered keyLE_trans keyLE_total numeric holds.keys
  rw [appendChildren_eq, DataSnapshot.children, enumerated]
  exact congrArg (start ++ ·) holds.decode_numbered

/-- Whatever the key order, reading a node gives its entries in some
order. -/
theorem Holds.appendChildren_perm {database : Database} {path : Path}
    {list : List Ingredient} (holds : Holds database path list) :
    (SavedLists.appendChildren [] ⟨database, path⟩).Perm list := by
  have enumerated :=
    sortedKeys_perm keyLE (fun _ _ _ _ => key_injective) holds.keys
  rw [appendChildren_eq, DataSnapshot.children, List.nil_append]
  have decoded :=
    (enumerated.map fun name =>
      (name, (⟨database, path ++ [name]⟩ : DataSnapshot))).filterMap
        fun child => decodeItem child.2
  rw [holds.decode_numbered] at decoded
  exact decoded

end SavedLists
end PocketChef
