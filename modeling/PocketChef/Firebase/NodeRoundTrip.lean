import PocketChef.Firebase.NodeOrder

/-!
# From a node to an object and back

The node that is made of the object of a node is the same node, except for
what the format loses: a leaf with `NSNull` that has no priority, outside of
the export format all priorities, and in an array the children whose keys are
not written like the numbers of its items.
-/

namespace PocketChef
namespace Firebase

open SortedAssoc (Sorted)
open FUtilities (compareKey key)
open FValidation

namespace FSnapshotUtilities

variable {Number : Type} (foundation : Foundation Number)

/-! ## What comes back -/

def leafBack (value : NSObject Number)
    (priority : Option (NSObject Number)) : Node Number :=
  match value, priority with
  | .null, none => .emptyNode
  | value, priority => .leaf value priority

/-- Whether a child with this name is in the object. -/
def keyBack (exp : Bool) (keys : List String) (name : String) : Bool :=
  match arraySize foundation exp keys with
  | some size => (List.range size).any fun i => key i == name
  | none => true

mutual

def readBack (exp : Bool) : Node Number → Node Number
  | .leaf value priority => leafBack value (if exp then priority else none)
  | .children children priority =>
      let kept := (childrenBack exp children).filter fun entry =>
        keyBack foundation exp (children.map Prod.fst) entry.1
      if kept.isEmpty then .emptyNode
      else .children kept (if exp then priority else none)

def childrenBack (exp : Bool) :
    List (String × Node Number) → List (String × Node Number)
  | [] => []
  | (key, childNode) :: rest =>
      if (readBack exp childNode).isEmpty then childrenBack exp rest
      else (key, readBack exp childNode) :: childrenBack exp rest

end

variable {foundation}
variable {exp : Bool} {fn : String} {depth : Nat} {path : List String}
variable {value : NSObject Number} {priority : Option (NSObject Number)}
variable {entries : List (String × Node Number)} {node : Node Number}

theorem childrenBack_eq (entries : List (String × Node Number)) :
    childrenBack foundation exp entries =
      (entries.map fun entry =>
        (entry.1, readBack foundation exp entry.2)).filter fun entry =>
          !entry.2.isEmpty := by
  induction entries with
  | nil => rw [childrenBack, List.map_nil, List.filter_nil]
  | cons entry rest inductionHypothesis =>
      obtain ⟨name, childNode⟩ := entry
      rw [childrenBack, List.map_cons, List.filter_cons, inductionHypothesis]
      cases (readBack foundation exp childNode).isEmpty <;> rfl

theorem membersForExport_eq (entries : List (String × Node Number)) :
    membersForExport foundation exp entries =
      entries.map fun entry =>
        (entry.1, valForExport foundation exp entry.2) := by
  induction entries with
  | nil => rw [membersForExport, List.map_nil]
  | cons entry rest inductionHypothesis =>
      rw [membersForExport, List.map_cons, inductionHypothesis]

theorem mem_childrenBack {name : String} {child : Node Number} :
    (name, child) ∈ childrenBack foundation exp entries ↔
      child.isEmpty = false ∧
        ∃ old, (name, old) ∈ entries ∧
          readBack foundation exp old = child := by
  rw [childrenBack_eq, List.mem_filter, List.mem_map]
  constructor
  · rintro ⟨⟨⟨key, old⟩, member, same⟩, filled⟩
    obtain ⟨rfl, rfl⟩ := Prod.mk.inj same
    exact ⟨by simpa using filled, old, member, rfl⟩
  · rintro ⟨filled, old, member, rfl⟩
    exact ⟨⟨(name, old), member, rfl⟩, by simpa using filled⟩

theorem sorted_childrenBack (sorted : Sorted compareKey entries) :
    Sorted compareKey (childrenBack foundation exp entries) := by
  rw [childrenBack_eq]
  refine List.Pairwise.filter _ (List.pairwise_map.mpr ?_)
  exact sorted

/-! ## Leaves -/

theorem checkedPriority_null (shallow : depth ≤ kFirebaseMaxObjectDepth) :
    checkedPriority foundation fn .null depth path = .ok none := by
  have deep : validDepth fn depth path = .ok () :=
    validDepth_eq_ok_iff.mpr shallow
  rw [checkedPriority, deep]
  rfl

theorem priorityFrom_ranked {rank : NSObject Number}
    (ranked : PriorityValue foundation rank) :
    priorityFrom foundation rank = .ok (some rank) := by
  have valid (fn : String) (path : List String) :
      isValidLeafValue foundation fn path rank = .ok true :=
    isValidLeafValue_eq_true_iff.mpr ranked.leafValue
  cases ranked with
  | string short =>
      rw [priorityFrom, valid]
      · rfl
      · simp
  | number kept plain =>
      rw [priorityFrom, valid]
      · rfl
      · simp
  | serverValue operation => rfl

theorem internalNodeFrom_leafValue
    (shallow : depth ≤ kFirebaseMaxObjectDepth)
    (kept : LeafValue foundation value) :
    internalNodeFrom foundation fn .null depth path value =
      .ok (leafBack value none) := by
  have checked : checkedPriority foundation fn .null depth path = .ok none :=
    checkedPriority_null shallow
  have valid : isValidLeafValue foundation fn path value = .ok true :=
    isValidLeafValue_eq_true_iff.mpr kept
  cases kept with
  | null =>
      have deep : validDepth fn depth path = .ok () :=
        validDepth_eq_ok_iff.mpr shallow
      rw [internalNodeFrom, deep]
      rfl
  | string short =>
      rw [internalNodeFrom, leafFrom, checked, ok_bind, valid]
      rfl
  | number plain =>
      rw [internalNodeFrom, leafFrom, checked, ok_bind, valid]
      rfl
  | serverValue operation =>
      rw [internalNodeFrom, checked]
      rfl

/-- A leaf with a priority is exported as a dictionary of both. -/
theorem internalNodeFrom_ranked {rank : NSObject Number}
    (shallow : depth ≤ kFirebaseMaxObjectDepth)
    (kept : LeafValue foundation value)
    (ranked : PriorityValue foundation rank) :
    internalNodeFrom foundation fn .null depth path
        (.dictionary [(kPayloadValue, value), (kPayloadPriority, rank)]) =
      .ok (.leaf value (some rank)) := by
  have valid : isValidLeafValue foundation fn path value = .ok true :=
    isValidLeafValue_eq_true_iff.mpr kept
  have own : ownPriority foundation fn path none
      [(kPayloadValue, value), (kPayloadPriority, rank)] =
        .ok (some rank) := by
    change (do
      isValidPriorityValue foundation fn path rank
      priorityFrom foundation rank) = Except.ok (some rank)
    rw [ranked.isValidPriorityValue, priorityFrom_ranked ranked]
    rfl
  have found : [(kPayloadValue, value), (kPayloadPriority, rank)].lookup
      kPayloadValue = some value :=
    rfl
  rw [internalNodeFrom, checkedPriority_null shallow, ok_bind, own,
    ok_bind, found]
  dsimp only
  rw [valid]
  rfl

/-! ## Children -/

theorem head_ne_of_isValidKey {name : String}
    (valid : isValidKey name = true) :
    name.toList.head? ≠ some kPayloadMetadataPrefix := by
  intro front
  exact isValidKey_not_mem valid (by decide) (List.mem_of_head? front)

theorem ne_of_isValidKey {name metadata : String}
    (valid : isValidKey name = true)
    (front : metadata.toList.head? = some kPayloadMetadataPrefix) :
    name ≠ metadata := by
  rintro rfl
  exact head_ne_of_isValidKey valid front

/-- The members that come from children, and others that make no children. -/
theorem membersFrom_childrenBack {others : List (String × NSObject Number)}
    (nothing : membersFrom foundation fn depth path others = .ok [])
    (names : ∀ entry ∈ entries, isValidKey entry.1 = true)
    (each : ∀ entry ∈ entries, ∀ place,
      internalNodeFrom foundation fn .null (depth + 1) place
          (valForExport foundation exp entry.2) =
        .ok (readBack foundation exp entry.2)) :
    membersFrom foundation fn depth path
        (membersForExport foundation exp entries ++ others) =
      .ok (childrenBack foundation exp entries) := by
  induction entries with
  | nil =>
      rw [membersForExport, List.nil_append, nothing, childrenBack]
  | cons entry rest inductionHypothesis =>
      obtain ⟨name, childNode⟩ := entry
      have valid := names _ List.mem_cons_self
      have following := inductionHypothesis
        (fun entry member => names entry (List.mem_cons_of_mem _ member))
        fun entry member => each entry (List.mem_cons_of_mem _ member)
      rw [membersForExport, List.cons_append, membersFrom,
        validDictionaryKey_of_isValidKey valid, ok_bind,
        if_neg (head_ne_of_isValidKey valid),
        each _ List.mem_cons_self, ok_bind, following, ok_bind, childrenBack]
      rfl

theorem lookup_membersForExport (name : String) :
    (membersForExport foundation exp entries).lookup name =
      (entries.lookup name).map (valForExport foundation exp) := by
  rw [membersForExport_eq]
  induction entries with
  | nil => rfl
  | cons entry rest inductionHypothesis =>
      rw [List.map_cons, List.lookup_cons, List.lookup_cons,
        inductionHypothesis]
      cases name == entry.1 <;> rfl

/-- There are no metadata among the members that come from children. -/
theorem lookup_metadata (names : ∀ entry ∈ entries, isValidKey entry.1 = true)
    {metadata : String}
    (front : metadata.toList.head? = some kPayloadMetadataPrefix) :
    (membersForExport foundation exp entries).lookup metadata = none := by
  rw [lookup_membersForExport, Option.map_eq_none_iff,
    List.lookup_eq_none_iff]
  intro entry member
  simpa using (ne_of_isValidKey (names entry member) front).symm

/-- The member for a priority. -/
def priorityMember (priority : Option (NSObject Number)) :
    List (String × NSObject Number) :=
  (priority.map fun rank => (kPayloadPriority, rank)).toList

theorem membersFrom_priorityMember
    (priority : Option (NSObject Number)) :
    membersFrom foundation fn depth path (priorityMember priority) =
      .ok [] := by
  cases priority with
  | none =>
      rw [priorityMember, Option.map_none, Option.toList_none, membersFrom]
      rfl
  | some rank =>
      have checked : validDictionaryKey fn kPayloadPriority path = .ok () :=
        rfl
      have front : kPayloadPriority.toList.head? =
          some kPayloadMetadataPrefix :=
        rfl
      rw [priorityMember, Option.map_some, Option.toList_some, membersFrom,
        checked, ok_bind, if_pos front, membersFrom]
      rfl

theorem lookup_priorityMember (priority : Option (NSObject Number))
    {metadata : String} (other : metadata ≠ kPayloadPriority) :
    (priorityMember priority).lookup metadata = none := by
  cases priority with
  | none => rfl
  | some rank =>
      have different : (metadata == kPayloadPriority) = false :=
        beq_eq_false_iff_ne.mpr other
      rw [priorityMember, Option.map_some, Option.toList_some,
        List.lookup_cons, different]
      rfl

/-- What becomes of a dictionary with children and a priority. -/
theorem internalNodeFrom_members
    (shallow : depth ≤ kFirebaseMaxObjectDepth)
    (ranked : ∀ rank ∈ priority, PriorityValue foundation rank)
    (sorted : Sorted compareKey entries)
    (names : ∀ entry ∈ entries, isValidKey entry.1 = true)
    (each : ∀ entry ∈ entries, ∀ place,
      internalNodeFrom foundation fn .null (depth + 1) place
          (valForExport foundation exp entry.2) =
        .ok (readBack foundation exp entry.2)) :
    internalNodeFrom foundation fn .null depth path (.dictionary
        (membersForExport foundation exp entries ++
          priorityMember priority)) =
      .ok (if (childrenBack foundation exp entries).isEmpty then .emptyNode
        else .children (childrenBack foundation exp entries) priority) := by
  have metadata (name : String)
      (front : name.toList.head? = some kPayloadMetadataPrefix) :
      (membersForExport foundation exp entries ++
        priorityMember priority).lookup name =
          (priorityMember priority).lookup name := by
    rw [List.lookup_append, lookup_metadata names front, Option.none_or]
  have value := (metadata kPayloadValue rfl).trans
    (lookup_priorityMember priority (by decide))
  have server := (metadata kServerValueSubKey rfl).trans
    (lookup_priorityMember priority (by decide))
  have own : ownPriority foundation fn path none
      (membersForExport foundation exp entries ++ priorityMember priority) =
        .ok priority := by
    rw [ownPriority, metadata kPayloadPriority rfl]
    cases priority with
    | none => rfl
    | some rank =>
        have valid := ranked rank rfl
        change (isValidPriorityValue foundation fn path rank >>= fun _ =>
          priorityFrom foundation rank) = _
        rw [valid.isValidPriorityValue, ok_bind, priorityFrom_ranked valid]
  have members : membersFrom foundation fn depth path
      (membersForExport foundation exp entries ++ priorityMember priority) =
        .ok (childrenBack foundation exp entries) :=
    membersFrom_childrenBack (membersFrom_priorityMember priority) names each
  rw [internalNodeFrom, checkedPriority_null shallow, ok_bind, own, ok_bind,
    value]
  dsimp only
  rw [isValidLeafValue, server]
  change (membersFrom foundation fn depth path _ >>=
    childrenNode priority) = _
  rw [members]
  exact childrenNode_of_perm (sorted_childrenBack sorted) (List.Perm.refl _)

/-! ## Arrays -/

/-- The children from numbered items, of which some may be empty. -/
def numberedChildren (result : Nat → Node Number) (numbers : List Nat) :
    List (String × Node Number) :=
  (numbers.map fun j => (key j, result j)).filter fun entry =>
    !entry.2.isEmpty

theorem itemsFrom_numbered {item : Nat → NSObject Number}
    {result : Nat → Node Number}
    (each : ∀ j place,
      internalNodeFrom foundation fn .null (depth + 1) place (item j) =
        .ok (result j)) (i count : Nat) :
    itemsFrom foundation fn depth path i
        ((List.range' i count).map item) =
      .ok (numberedChildren result (List.range' i count)) := by
  induction count generalizing i with
  | zero =>
      rw [List.range'_zero, List.map_nil, itemsFrom]
      rfl
  | succ count inductionHypothesis =>
      rw [List.range'_succ, List.map_cons, itemsFrom, each, ok_bind,
        inductionHypothesis, ok_bind, numberedChildren, numberedChildren,
        List.map_cons, List.filter_cons]
      cases (result i).isEmpty <;> rfl

/-- What is made of the item with a number. -/
def itemBack (foundation : Foundation Number) (exp : Bool)
    (entries : List (String × Node Number)) (j : Nat) : Node Number :=
  match entries.lookup (key j) with
  | some childNode => readBack foundation exp childNode
  | none => .emptyNode

theorem numberedChildren_perm (sorted : Sorted compareKey entries)
    {size : Nat} {kept : String → Bool}
    (keeps : ∀ name, kept name = true ↔ ∃ j, j < size ∧ key j = name) :
    (numberedChildren (itemBack foundation exp entries)
      (List.range' 0 size)).Perm
        ((childrenBack foundation exp entries).filter fun entry =>
          kept entry.1) := by
  have numbered : (numberedChildren (itemBack foundation exp entries)
      (List.range' 0 size)).Nodup := by
    refine List.Nodup.filter _ (List.Nodup.map ?_ List.nodup_range')
    intro first second same
    exact FUtilities.key_injective (congrArg Prod.fst same)
  have listed : ((childrenBack foundation exp entries).filter fun entry =>
      kept entry.1).Nodup := by
    refine List.Nodup.filter _ ?_
    refine (sorted_childrenBack sorted).imp ?_
    rintro first second less rfl
    have same : compareKey first.1 first.1 = .eq := Std.ReflCmp.compare_self
    rw [same] at less
    cases less
  refine (List.perm_ext_iff_of_nodup numbered listed).mpr ?_
  rintro ⟨name, child⟩
  rw [numberedChildren, List.mem_filter, List.mem_filter, List.mem_map,
    mem_childrenBack, keeps]
  constructor
  · rintro ⟨⟨j, range, same⟩, some⟩
    obtain ⟨rfl, rfl⟩ := Prod.mk.inj same
    rw [List.mem_range'_1] at range
    have filled : (itemBack foundation exp entries j).isEmpty = false := by
      simpa using some
    refine ⟨⟨filled, ?_⟩, j, by omega, rfl⟩
    rw [itemBack] at filled ⊢
    cases found : entries.lookup (key j) with
    | none =>
        rw [found] at filled
        cases filled
    | some old =>
        exact ⟨old, (sorted.listLookup_eq_some_iff _ _).mp found, rfl⟩
  · rintro ⟨⟨filled, old, member, rfl⟩, j, small, rfl⟩
    have found := (sorted.listLookup_eq_some_iff _ _).mpr member
    refine ⟨⟨j, List.mem_range'_1.mpr (by omega), ?_⟩, by simpa using filled⟩
    rw [itemBack, found]

/-- What becomes of an array of the children. -/
theorem internalNodeFrom_items
    (shallow : depth ≤ kFirebaseMaxObjectDepth)
    (deeper : depth + 1 ≤ kFirebaseMaxObjectDepth)
    (sorted : Sorted compareKey entries) {size : Nat}
    (array : arraySize foundation exp (entries.map Prod.fst) = some size)
    (each : ∀ entry ∈ entries, ∀ place,
      internalNodeFrom foundation fn .null (depth + 1) place
          (valForExport foundation exp entry.2) =
        .ok (readBack foundation exp entry.2)) :
    let kept := (childrenBack foundation exp entries).filter fun entry =>
      keyBack foundation exp (entries.map Prod.fst) entry.1
    internalNodeFrom foundation fn .null depth path
        (.array ((List.range size).map fun j =>
          ((membersForExport foundation exp entries).lookup (key j)).getD
            .null)) =
      .ok (if kept.isEmpty then .emptyNode else .children kept none) := by
  intro kept
  have items : itemsFrom foundation fn depth path 0
      ((List.range' 0 size).map fun j =>
        ((membersForExport foundation exp entries).lookup (key j)).getD
          .null) =
        .ok (numberedChildren (itemBack foundation exp entries)
          (List.range' 0 size)) := by
    refine itemsFrom_numbered (fun j place => ?_) 0 size
    rw [lookup_membersForExport, itemBack]
    cases found : entries.lookup (key j) with
    | none => exact internalNodeFrom_leafValue deeper .null
    | some childNode =>
        exact each _ ((sorted.listLookup_eq_some_iff _ _).mp found) place
  have keeps (name : String) :
      keyBack foundation exp (entries.map Prod.fst) name = true ↔
        ∃ j, j < size ∧ key j = name := by
    rw [keyBack, array]
    simp
  rw [internalNodeFrom, checkedPriority_null shallow, ok_bind,
    List.range_eq_range', items, ok_bind]
  exact childrenNode_of_perm ((sorted_childrenBack sorted).filter _)
    (numberedChildren_perm sorted keeps)

/-! ## The round trip -/

theorem arraySize_export (keys : List String) :
    arraySize foundation true keys = none := by
  rw [arraySize]
  simp

theorem valForExport_children (inhabited : entries ≠ []) :
    valForExport foundation exp (.children entries priority) =
      match arraySize foundation exp (entries.map Prod.fst) with
      | some size =>
          .array ((List.range size).map fun i =>
            ((membersForExport foundation exp entries).lookup (key i)).getD
              .null)
      | none =>
          .dictionary (membersForExport foundation exp entries ++
            priorityMember (if exp then priority else none)) := by
  have full : entries.isEmpty = false := by
    simpa using inhabited
  rw [valForExport, full]
  dsimp only
  cases arraySize foundation exp (entries.map Prod.fst) with
  | some size => rfl
  | none =>
      cases exp with
      | false => exact congrArg NSObject.dictionary (List.append_nil _).symm
      | true =>
          cases priority with
          | none => exact congrArg NSObject.dictionary (List.append_nil _).symm
          | some rank => rfl

/-- What comes back from the object of a node. -/
theorem internalNodeFrom_valForExport
    (storable : Storable foundation depth node) :
    internalNodeFrom foundation fn .null depth path
        (valForExport foundation exp node) =
      .ok (readBack foundation exp node) := by
  induction storable generalizing path with
  | emptyNode shallow =>
      have nothing : valForExport foundation exp .emptyNode = .null := by
        rw [FNode.emptyNode, valForExport]
        rfl
      have kept : readBack foundation exp .emptyNode = leafBack .null none := by
        rw [FNode.emptyNode, readBack, childrenBack]
        rfl
      rw [nothing, kept]
      exact internalNodeFrom_leafValue shallow .null
  | @leaf depth value priority shallow kept ranked =>
      rw [valForExport.eq_def, readBack]
      cases exp with
      | false => exact internalNodeFrom_leafValue shallow kept
      | true =>
          cases priority with
          | none => exact internalNodeFrom_leafValue shallow kept
          | some rank =>
              have same : leafBack value (some rank) =
                  .leaf value (some rank) := by
                rw [leafBack]
                simp
              exact (internalNodeFrom_ranked shallow kept
                (ranked rank rfl)).trans (congrArg Except.ok same.symm)
  | @children depth entries priority shallow ranked inhabited sorted names
      filled each inductionHypothesis =>
      have below (entry : String × Node Number) (member : entry ∈ entries)
          (place : List String) :=
        @inductionHypothesis entry member place
      have exported : ∀ rank ∈ (if exp then priority else none),
          PriorityValue foundation rank := by
        intro rank member
        split at member
        · exact ranked rank member
        · cases member
      rw [valForExport_children inhabited, readBack]
      cases array : arraySize foundation exp (entries.map Prod.fst) with
      | none =>
          have all : (childrenBack foundation exp entries).filter
              (fun entry => keyBack foundation exp (entries.map Prod.fst)
                entry.1) = childrenBack foundation exp entries := by
            refine List.filter_eq_self.mpr ?_
            intro entry member
            rw [keyBack, array]
          rw [all]
          exact internalNodeFrom_members shallow exported sorted names below
      | some size =>
          have plain : exp = false := by
            cases exp with
            | false => rfl
            | true =>
                rw [arraySize_export] at array
                cases array
          have deeper : depth + 1 ≤ kFirebaseMaxObjectDepth := by
            obtain ⟨entry, rest, shape⟩ := List.exists_cons_of_ne_nil inhabited
            refine (each entry ?_).shallow
            rw [shape]
            exact List.mem_cons_self
          rw [internalNodeFrom_items shallow deeper sorted array below, plain]
          rfl

/-! ## When nothing is lost -/

/-- Whether a node loses nothing itself. -/
def Kept (foundation : Foundation Number) (exp : Bool) : Node Number → Prop
  | .leaf value priority =>
      (exp = false → priority = none) ∧ (value = .null → priority ≠ none)
  | .children children priority =>
      (exp = false → priority = none) ∧
        ∀ size, arraySize foundation exp (children.map Prod.fst) = some size →
          ∀ entry ∈ children, ∃ i, i < size ∧ key i = entry.1

theorem kept_emptyNode : Kept foundation exp (.emptyNode : Node Number) :=
  ⟨fun _ => rfl, fun _ _ _ member => absurd member List.not_mem_nil⟩

theorem ite_eq_self_iff :
    (if exp then priority else none) = priority ↔
      (exp = false → priority = none) := by
  cases exp with
  | true => simp
  | false => simp [eq_comm]

theorem leafBack_eq_leaf_iff {given : Option (NSObject Number)} :
    leafBack value given = .leaf value priority ↔
      given = priority ∧ (value = .null → priority ≠ none) := by
  rw [leafBack.eq_def]
  split
  · constructor
    · intro same
      cases same
    · rintro ⟨rfl, ranked⟩
      exact absurd rfl (ranked rfl)
  · rename_i other
    constructor
    · intro same
      injection same with _ equal
      subst equal
      exact ⟨rfl, fun null nothing => other null nothing⟩
    · rintro ⟨rfl, _⟩
      rfl

theorem keyBack_iff {keys : List String} {name : String} :
    keyBack foundation exp keys name = true ↔
      ∀ size, arraySize foundation exp keys = some size →
        ∃ i, i < size ∧ key i = name := by
  rw [keyBack]
  cases arraySize foundation exp keys with
  | none => simp
  | some size => simp

theorem filter_childrenBack_eq_iff (sorted : Sorted compareKey entries)
    (filled : ∀ entry ∈ entries, entry.2.isEmpty = false)
    (kept : String → Bool) :
    ((childrenBack foundation exp entries).filter fun entry =>
        kept entry.1) = entries ↔
      ∀ entry ∈ entries, kept entry.1 = true ∧
        readBack foundation exp entry.2 = entry.2 := by
  constructor
  · intro same entry member
    have inside := member
    rw [← same, List.mem_filter] at inside
    obtain ⟨back, keeps⟩ := inside
    obtain ⟨_, old, stored, equal⟩ := mem_childrenBack.mp back
    rw [sorted.value_unique stored member] at equal
    exact ⟨keeps, equal⟩
  · intro each
    have same : (entries.map fun entry =>
        (entry.1, readBack foundation exp entry.2)) = entries := by
      refine (List.map_congr_left ?_).trans (List.map_id _)
      intro entry member
      rw [(each entry member).2]
      rfl
    rw [childrenBack_eq, same, List.filter_filter]
    refine List.filter_eq_self.mpr ?_
    intro entry member
    rw [(each entry member).1, filled entry member]
    rfl

theorem readBack_leaf_iff :
    readBack foundation exp (.leaf value priority) = .leaf value priority ↔
      Kept foundation exp (.leaf value priority) := by
  rw [readBack, Kept, ← ite_eq_self_iff]
  exact leafBack_eq_leaf_iff

theorem readBack_children_iff (inhabited : entries ≠ [])
    (sorted : Sorted compareKey entries)
    (filled : ∀ entry ∈ entries, entry.2.isEmpty = false) :
    readBack foundation exp (.children entries priority) =
        .children entries priority ↔
      Kept foundation exp (.children entries priority) ∧
        ∀ entry ∈ entries,
          readBack foundation exp entry.2 = entry.2 := by
  have back := @filter_childrenBack_eq_iff _ foundation exp _ sorted
    filled (keyBack foundation exp (entries.map Prod.fst))
  rw [readBack, Kept, ← ite_eq_self_iff]
  constructor
  · intro same
    split at same
    · injection same with nothing
      exact absurd nothing.symm inhabited
    · injection same with stored priorities
      have both := back.mp stored
      refine ⟨⟨priorities, ?_⟩, fun entry member => (both entry member).2⟩
      intro size array entry member
      exact keyBack_iff.mp (both entry member).1 size array
  · rintro ⟨⟨priorities, keys⟩, below⟩
    have stored := back.mpr fun entry member =>
      ⟨keyBack_iff.mpr fun size array => keys size array entry member,
        below entry member⟩
    rw [stored, if_neg (by simpa using inhabited), priorities]

theorem readBack_eq_self_iff (storable : Storable foundation depth node) :
    readBack foundation exp node = node ↔
      ∀ path, Kept foundation exp (node.getChild compareKey path) := by
  induction storable with
  | emptyNode shallow =>
      have same : readBack foundation exp .emptyNode = .emptyNode := by
        rw [FNode.emptyNode, readBack, childrenBack]
        rfl
      simp only [same, FNode.getChild_emptyNode, kept_emptyNode, implies_true]
  | leaf shallow kept ranked =>
      rw [FNode.forall_getChild_leaf_iff kept_emptyNode]
      exact readBack_leaf_iff
  | children shallow ranked inhabited sorted names filled each
      inductionHypothesis =>
      rw [FNode.forall_getChild_children_iff kept_emptyNode sorted,
        readBack_children_iff inhabited sorted filled]
      refine and_congr_right fun _ => forall₂_congr ?_
      exact inductionHypothesis

/-- The object of a node is read back in whatever order its dictionaries list
their members. -/
theorem nodeFrom_exported (storable : Storable foundation 0 node)
    (enumerates : Enumerates (valForExport foundation exp node) exported) :
    nodeFrom foundation caller exported .null = .ok node ↔
      ∀ path, Kept foundation exp (node.getChild compareKey path) := by
  rw [nodeFrom_of_enumerates enumerates
      (internalNodeFrom_valForExport storable),
    Except.ok.injEq, readBack_eq_self_iff storable]

/-- The export format gives a node back, unless it has a leaf with `NSNull`
and no priority. -/
theorem nodeFrom_export
    (made : nodeFrom foundation fn object aPriority = .ok node)
    (enumerates : Enumerates (valForExport foundation true node) exported) :
    nodeFrom foundation caller exported .null = .ok node ↔
      ∀ path, node.getChild compareKey path ≠ .leaf .null none := by
  rw [nodeFrom_exported (nodeFrom_storable made) enumerates]
  refine forall_congr' fun path => ?_
  cases node.getChild compareKey path with
  | leaf value priority => simp [Kept]
  | children entries priority => simp [Kept, arraySize_export]

/-- A node with a leaf with `NSNull`. -/
def nullNode : Node Int :=
  .children [("a", .leaf .null none), ("b", .leaf (.string "x") none)] none

theorem nodeFrom_nullDictionary :
    nodeFrom decimalFoundation "setValue:"
        (.dictionary [("a", .dictionary [(kPayloadValue, .null)]),
          ("b", .string "x")]) .null =
      .ok nullNode := by
  have sorted : Sorted compareKey
      [("a", (.leaf .null none : Node Int)),
        ("b", .leaf (.string "x") none)] :=
    SortedAssoc.sorted_pair (by decide +kernel)
  have made : childrenNode none
      [("a", (.leaf .null none : Node Int)),
        ("b", .leaf (.string "x") none)] = .ok nullNode :=
    childrenNode_of_perm sorted (List.Perm.refl _)
  exact made

theorem valForExport_nullNode :
    valForExport decimalFoundation true nullNode =
      .dictionary [("a", .null), ("b", .string "x")] := by
  rw [nullNode, valForExport_children (by simp), arraySize_export,
    membersForExport_eq]
  simp only [List.map_cons, List.map_nil, valForExport]
  rfl

theorem nodeFrom_export_null :
    nodeFrom decimalFoundation "setValue:"
        (.dictionary [("b", .string "x"), ("a", .null)]) .null ≠
      .ok nullNode := by
  have enumerates : Enumerates
      (valForExport decimalFoundation true nullNode)
      (.dictionary [("b", .string "x"), ("a", .null)]) := by
    rw [valForExport_nullNode]
    exact .single (.here (by decide) (List.Perm.swap _ _ _))
  intro same
  exact (nodeFrom_export nodeFrom_nullDictionary enumerates).mp same ["a"]
    rfl

/-- The plain format gives a node back, unless it has priorities or a leaf
with `NSNull`, or makes an array of children whose keys are not all written
like the numbers of items. -/
theorem nodeFrom_val
    (made : nodeFrom foundation fn object aPriority = .ok node)
    (enumerates : Enumerates (val foundation node) exported) :
    nodeFrom foundation caller exported .null = .ok node ↔
      ∀ path, (node.getChild compareKey path).getPriority = none ∧
        node.getChild compareKey path ≠ .leaf .null none ∧
        ∀ entries size,
          node.getChild compareKey path = .children entries none →
            arraySize foundation false (entries.map Prod.fst) = some size →
              ∀ entry ∈ entries, ∃ i, i < size ∧ key i = entry.1 := by
  rw [nodeFrom_exported (nodeFrom_storable made) enumerates]
  refine forall_congr' fun path => ?_
  cases node.getChild compareKey path with
  | leaf value priority =>
      simp only [Kept, FNode.getPriority, true_implies, reduceCtorEq,
        false_implies, implies_true, and_true, FNode.leaf.injEq, ne_eq,
        not_and]
  | children entries priority =>
      simp only [Kept, FNode.getPriority, true_implies, reduceCtorEq,
        not_false_eq_true, ne_eq, true_and, FNode.children.injEq]
      constructor
      · rintro ⟨rfl, kept⟩
        refine ⟨rfl, ?_⟩
        rintro _ size ⟨rfl, _⟩ array
        exact kept size array
      · rintro ⟨rfl, kept⟩
        exact ⟨rfl, fun size => kept entries size ⟨rfl, rfl⟩⟩

theorem nodeFrom_val_priority :
    nodeFrom decimalFoundation "setValue:"
        (val decimalFoundation (.leaf (.string "x") (some (.number 1)))) .null ≠
      .ok (.leaf (.string "x") (some (.number 1))) := by
  have made : nodeFrom decimalFoundation "setValue:" (.string "x")
      (.number 1) = .ok (.leaf (.string "x") (some (.number 1))) :=
    rfl
  intro same
  have first := ((nodeFrom_val made .refl).mp same []).1
  cases first

end FSnapshotUtilities

end Firebase
end PocketChef