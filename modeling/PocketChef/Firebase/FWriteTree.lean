import PocketChef.Firebase.FCompoundWrite

/-!
# The tree of pending writes

`FWriteTree` keeps the writes that the server has not acknowledged, and a
compound write of those that are visible.  When a write is acknowledged it is
taken out; if other writes overlap with it, the compound write is built anew
from those that are left.
-/

namespace PocketChef
namespace Firebase

universe u v

open PathStrip

structure FWriteRecord (Key : Type u) (Value : Type v) where
  writeId : Int
  path : List Key
  overwrite : FNode Key Value
  visible : Bool

structure FWriteTree (Key : Type u) (Value : Type v) where
  visibleWrites : FCompoundWrite Key Value := .emptyWrite
  allWrites : List (FWriteRecord Key Value) := []
  lastWriteId : Int := -1

/-- The write of a record, for `PendingOverwrites`. -/
def FWriteRecord.pending {Key : Type u} {Value : Type v}
    (record : FWriteRecord Key Value) : List Key × FNode Key Value :=
  (record.path, record.overwrite)

namespace FWriteTree

variable {Key : Type u} {Value : Type v} [DecidableEq Key]

section Methods

variable (keyComparator stringComparator : Key → Key → Ordering)
variable (self : FWriteTree Key Value)

/-- `none` is a failed assertion. -/
def addOverwriteAtPath (path : List Key) (newData : FNode Key Value)
    (writeId : Int) (visible : Bool) : Option (FWriteTree Key Value) :=
  if writeId > self.lastWriteId then
    some {
      visibleWrites :=
        if visible then
          self.visibleWrites.addWrite keyComparator stringComparator newData
            path
        else self.visibleWrites
      allWrites := self.allWrites ++
        [{ writeId := writeId, path := path, overwrite := newData
           visible := visible }]
      lastWriteId := writeId }
  else none

/-- One record of `layerTreeFromWrites:filter:treeRoot:`. -/
def layerWrite (filter : FWriteRecord Key Value → Bool) (treeRoot : List Key)
    (compoundWrite : FCompoundWrite Key Value)
    (record : FWriteRecord Key Value) : FCompoundWrite Key Value :=
  if filter record then
    if FPath.contains treeRoot record.path then
      compoundWrite.addWrite keyComparator stringComparator record.overwrite
        (FPath.relativePathFrom treeRoot record.path)
    else if FPath.contains record.path treeRoot then
      let child := record.overwrite.getChild keyComparator
        (FPath.relativePathFrom record.path treeRoot)
      compoundWrite.addWrite keyComparator stringComparator child []
    else compoundWrite
  else compoundWrite

def layerTreeFromWrites (writes : List (FWriteRecord Key Value))
    (filter : FWriteRecord Key Value → Bool) (treeRoot : List Key) :
    FCompoundWrite Key Value :=
  writes.foldl (layerWrite keyComparator stringComparator filter treeRoot)
    .emptyWrite

def defaultFilter (_ : FWriteRecord Key Value) : Bool :=
  true

def resetTree : FWriteTree Key Value :=
  { self with
    visibleWrites := layerTreeFromWrites keyComparator stringComparator
      self.allWrites defaultFilter []
    lastWriteId := (self.allWrites.getLast?.map FWriteRecord.writeId).getD
      (-1) }

/-- One turn of the loop of `removeWriteId:`, for the write number `i`.  The
flags are `removedWriteWasVisible` and `removedWriteOverlapsWithOtherWrites`;
the loop is over when the first is false. -/
def compareWithRemoved (writeToRemove : FWriteRecord Key Value) (index : Nat)
    (flags : Bool × Bool) (current : FWriteRecord Key Value × Nat) :
    Bool × Bool :=
  if flags.1 && current.1.visible then
    if current.2 ≥ index &&
        FPath.contains current.1.path writeToRemove.path then
      (false, flags.2)
    else if FPath.contains writeToRemove.path current.1.path then
      (flags.1, true)
    else flags
  else flags

/-- The tree without the write, and whether events may have to be raised;
`none` is a failed assertion. -/
def removeWriteId (writeId : Int) : Option (FWriteTree Key Value × Bool) :=
  match self.allWrites.findIdx? fun record => record.writeId = writeId with
  | none => none
  | some index =>
      match self.allWrites[index]? with
      | none => none
      | some writeToRemove =>
          let self := { self with allWrites := self.allWrites.eraseIdx index }
          let (removedWriteWasVisible, removedWriteOverlapsWithOtherWrites) :=
            self.allWrites.zipIdx.reverse.foldl
              (compareWithRemoved writeToRemove index)
              (writeToRemove.visible, false)
          if !removedWriteWasVisible then some (self, false)
          else if removedWriteOverlapsWithOtherWrites then
            some (self.resetTree keyComparator stringComparator, true)
          else
            some ({ self with
              visibleWrites := self.visibleWrites.removeWriteAtPath
                stringComparator writeToRemove.path }, true)

/-- `calculateCompleteEventCacheAtPath:completeServerCache:excludeWriteIds:`
`includeHiddenWrites:`. -/
def calculateCompleteEventCacheAtPath (treePath : List Key)
    (completeServerCache : Option (FNode Key Value))
    (writeIdsToExclude : Option (List Int)) (includeHiddenWrites : Bool) :
    Option (FNode Key Value) :=
  if writeIdsToExclude.isNone && !includeHiddenWrites then
    match self.visibleWrites.completeNodeAtPath keyComparator
        stringComparator treePath with
    | some shadowingNode => some shadowingNode
    | none =>
        let subMerge := self.visibleWrites.childCompoundWriteAtPath
          keyComparator stringComparator treePath
        if subMerge.isEmpty then completeServerCache
        else if completeServerCache.isNone &&
            !subMerge.hasCompleteWriteAtPath keyComparator stringComparator
              [] then
          none
        else
          let layeredCache := completeServerCache.getD .emptyNode
          some (subMerge.applyToNode keyComparator layeredCache)
  else
    let merge := self.visibleWrites.childCompoundWriteAtPath keyComparator
      stringComparator treePath
    if !includeHiddenWrites && merge.isEmpty then completeServerCache
    else if !includeHiddenWrites && completeServerCache.isNone &&
        !merge.hasCompleteWriteAtPath keyComparator stringComparator [] then
      none
    else
      let filter (record : FWriteRecord Key Value) : Bool :=
        (record.visible || includeHiddenWrites) &&
          !(writeIdsToExclude.getD []).contains record.writeId &&
            (FPath.contains record.path treePath ||
              FPath.contains treePath record.path)
      let mergeAtPath := layerTreeFromWrites keyComparator stringComparator
        self.allWrites filter treePath
      let layeredCache := completeServerCache.getD .emptyNode
      some (mergeAtPath.applyToNode keyComparator layeredCache)

end Methods

variable {keyComparator stringComparator : Key → Key → Ordering}
variable {named : Key → Prop} {self : FWriteTree Key Value}

/-- Without a node of the server, only the visible writes tell about a
path. -/
theorem calculateCompleteEventCacheAtPath_none (treePath : List Key) :
    self.calculateCompleteEventCacheAtPath keyComparator stringComparator
        treePath none none false =
      self.visibleWrites.completeNodeAtPath keyComparator stringComparator
        treePath := by
  rw [calculateCompleteEventCacheAtPath, if_pos (by simp)]
  cases complete : self.visibleWrites.completeNodeAtPath keyComparator
      stringComparator treePath with
  | some shadowingNode => rfl
  | none =>
      have partly :=
        FCompoundWrite.hasCompleteWriteAtPath_childCompoundWriteAtPath complete
      dsimp only
      rw [partly]
      simp

/-! ## The loop of `removeWriteId` -/

theorem contains_iff {path other : List Key} :
    FPath.contains path other = true ↔ path <+: other :=
  List.isPrefixOf_iff_prefix

variable {writeToRemove : FWriteRecord Key Value}

theorem foldl_compareWithRemoved_of_false {index : Nat}
    (records : List (FWriteRecord Key Value × Nat)) (overlaps : Bool) :
    records.foldl (compareWithRemoved writeToRemove index)
      (false, overlaps) = (false, overlaps) := by
  induction records with
  | nil => rfl
  | cons current rest inductionHypothesis =>
      rw [List.foldl_cons]
      exact inductionHypothesis

/-- What the loop finds about the first write, when all writes are visible. -/
theorem foldl_compareWithRemoved
    {records : List (FWriteRecord Key Value × Nat)}
    (visible : ∀ current ∈ records, current.1.visible = true)
    (overlaps : Bool) :
    ((records.foldl (compareWithRemoved writeToRemove 0)
        (true, overlaps)).1 = false ∧
      ∃ current ∈ records, current.1.path <+: writeToRemove.path) ∨
    ((records.foldl (compareWithRemoved writeToRemove 0)
        (true, overlaps)).1 = true ∧
      (∀ current ∈ records, ¬ current.1.path <+: writeToRemove.path) ∧
      ((records.foldl (compareWithRemoved writeToRemove 0)
          (true, overlaps)).2 = true ↔
        overlaps = true ∨
          ∃ current ∈ records, writeToRemove.path <+: current.1.path)) := by
  induction records generalizing overlaps with
  | nil => simp
  | cons current rest inductionHypothesis =>
      have others : ∀ other ∈ rest, other.1.visible = true :=
        fun other member => visible other (List.mem_cons_of_mem _ member)
      have turn : compareWithRemoved writeToRemove 0 (true, overlaps)
          current =
            if current.1.path <+: writeToRemove.path then (false, overlaps)
            else (true,
              decide (overlaps = true ∨
                writeToRemove.path <+: current.1.path)) := by
        rw [compareWithRemoved, visible current List.mem_cons_self]
        simp only [Bool.and_true, if_true, ge_iff_le, Nat.zero_le,
          decide_true, Bool.true_and, contains_iff]
        split
        · rfl
        · split
          · rename_i below
            simp [below]
          · rename_i below
            simp [below]
      rw [List.foldl_cons, turn]
      by_cases above : current.1.path <+: writeToRemove.path
      · rw [if_pos above, foldl_compareWithRemoved_of_false]
        exact Or.inl ⟨rfl, current, List.mem_cons_self, above⟩
      · rw [if_neg above]
        rcases inductionHypothesis others _ with
          ⟨hidden, other, member, covers⟩ | ⟨stays, none, flag⟩
        · exact Or.inl
            ⟨hidden, other, List.mem_cons_of_mem _ member, covers⟩
        · refine Or.inr ⟨stays, ?_, ?_⟩
          · intro other member
            rcases List.mem_cons.mp member with rfl | later
            · exact above
            · exact none other later
          · rw [flag, decide_eq_true_iff, or_assoc]
            simp only [List.mem_cons, exists_eq_or_imp]

/-! ## The compound write of the pending writes -/

/-- What the pending writes of the records tell about a path. -/
abbrev told (keyComparator : Key → Key → Ordering)
    (records : List (FWriteRecord Key Value)) (path : List Key) :
    Option (FNode Key Value) :=
  PendingOverwrites.complete (FCompoundWrite.part keyComparator)
    (FCompoundWrite.put keyComparator)
    (records.map FWriteRecord.pending) path

/-- A compound write tells about paths what the records do. -/
structure Tells (keyComparator stringComparator : Key → Key → Ordering)
    (named : Key → Prop) (records : List (FWriteRecord Key Value))
    (write : FCompoundWrite Key Value) : Prop where
  wellFormed : write.WellFormed keyComparator stringComparator named
  complete : ∀ path, (∀ key ∈ path, named key) →
    write.completeNodeAtPath keyComparator stringComparator path =
      told keyComparator records path

/-- A record whose node and path are in order. -/
structure Kept (keyComparator : Key → Key → Ordering) (named : Key → Prop)
    (record : FWriteRecord Key Value) : Prop where
  visible : record.visible = true
  names : ∀ key ∈ record.path, named key
  node : record.overwrite.WellFormed keyComparator named

variable {records : List (FWriteRecord Key Value)}
variable {record : FWriteRecord Key Value} {write : FCompoundWrite Key Value}

theorem Tells.emptyWrite :
    Tells keyComparator stringComparator named
      ([] : List (FWriteRecord Key Value)) .emptyWrite where
  wellFormed := FImmutableTree.WellFormed.empty
  complete := fun path _ => FCompoundWrite.completeNodeAtPath_empty path

variable [Std.TransCmp keyComparator] [Std.TransCmp stringComparator]

theorem Tells.addWrite (separates : Separates keyComparator named)
    (separatesStrings : Separates stringComparator named)
    (tells : Tells keyComparator stringComparator named records write)
    (kept : Kept keyComparator named record) :
    Tells keyComparator stringComparator named (records ++ [record])
      (write.addWrite keyComparator stringComparator record.overwrite
        record.path) where
  wellFormed := tells.wellFormed.addWrite kept.node kept.names
  complete := by
    intro path names
    rw [FCompoundWrite.completeNodeAtPath_addWrite separates separatesStrings
      tells.wellFormed kept.node kept.names names, tells.complete path names,
      told, told, List.map_append, List.map_singleton,
      PendingOverwrites.complete_append_singleton]
    rfl

/-- The compound write that `resetTree` builds. -/
theorem Tells.layerTreeFromWrites (separates : Separates keyComparator named)
    (separatesStrings : Separates stringComparator named)
    (kept : ∀ record ∈ records, Kept keyComparator named record) :
    Tells keyComparator stringComparator named records
      (layerTreeFromWrites keyComparator stringComparator records
        defaultFilter []) := by
  induction records using List.reverseRecOn with
  | nil => exact emptyWrite
  | append_singleton rest record inductionHypothesis =>
      have before := inductionHypothesis fun other member =>
        kept other (List.mem_append_left _ member)
      have last := kept record (by simp)
      rw [FWriteTree.layerTreeFromWrites, List.foldl_append]
      exact before.addWrite separates separatesStrings last

omit [Std.TransCmp keyComparator] in
/-- The compound write without the first record, if no other record is above
it or below it. -/
theorem Tells.removeWriteAtPath
    (separatesStrings : Separates stringComparator named)
    (tells : Tells keyComparator stringComparator named (record :: records)
      write) (kept : Kept keyComparator named record)
    (apart : ∀ other ∈ records, ¬ other.path <+: record.path ∧
      ¬ record.path <+: other.path) :
    Tells keyComparator stringComparator named records
      (write.removeWriteAtPath stringComparator record.path) where
  wellFormed := tells.wellFormed.removeWriteAtPath record.path
  complete := by
    intro path names
    have pendingApart : ∀ later ∈ records.map FWriteRecord.pending,
        ¬ later.1 <+: record.pending.1 ∧
          ¬ record.pending.1 <+: later.1 := by
      intro later member
      obtain ⟨other, inside, rfl⟩ := List.mem_map.mp member
      exact apart other inside
    have alone : ∀ above, above <+: record.path → above ≠ record.path →
        write.completeNodeAtPath keyComparator stringComparator above =
          none := by
      intro above shorter different
      have notBelow : ¬ record.path <+: above := fun longer =>
        different (List.IsPrefix.eq_of_length_le shorter longer.length_le)
      rw [tells.complete above fun key member =>
          kept.names key (shorter.subset member), told, List.map_cons,
        PendingOverwrites.complete_cons_of_not_above notBelow,
        PendingOverwrites.complete_eq_none_iff]
      intro later member covers
      exact (pendingApart later member).1 (covers.trans shorter)
    have removed := FCompoundWrite.completeNodeAtPath_setTree_empty
      separatesStrings tells.wellFormed kept.names alone names
    rw [← FCompoundWrite.writeTree_removeWriteAtPath] at removed
    refine removed.trans ?_
    split
    · rename_i below
      exact (PendingOverwrites.complete_eq_none_of_apart pendingApart
        below).symm
    · rename_i notBelow
      rw [tells.complete path names, told, List.map_cons,
        PendingOverwrites.complete_cons_of_not_above notBelow]

/-! ## The invariant -/

/-- The visible writes tell what all writes do, and all numbers are below
`next`. -/
structure Valid (keyComparator stringComparator : Key → Key → Ordering)
    (named : Key → Prop) (next : Int) (tree : FWriteTree Key Value) :
    Prop where
  kept : ∀ record ∈ tree.allWrites, Kept keyComparator named record
  tells : Tells keyComparator stringComparator named tree.allWrites
    tree.visibleWrites
  below : ∀ record ∈ tree.allWrites, record.writeId < next
  last : tree.lastWriteId < next

omit [Std.TransCmp keyComparator] [Std.TransCmp stringComparator] in
theorem Valid.new :
    Valid keyComparator stringComparator named 0
      ({} : FWriteTree Key Value) where
  kept := fun _ member => absurd member List.not_mem_nil
  tells := .emptyWrite
  below := fun _ member => absurd member List.not_mem_nil
  last := by
    change (-1 : Int) < 0
    omega

theorem Valid.addOverwriteAtPath (separates : Separates keyComparator named)
    (separatesStrings : Separates stringComparator named) {next : Int}
    (valid : Valid keyComparator stringComparator named next self)
    (kept : Kept keyComparator named record)
    (number : record.writeId = next) :
    ∃ added, self.addOverwriteAtPath keyComparator stringComparator
        record.path record.overwrite record.writeId record.visible =
          some added ∧
      Valid keyComparator stringComparator named (next + 1) added ∧
      added.allWrites = self.allWrites ++ [record] := by
  have last := valid.last
  rw [FWriteTree.addOverwriteAtPath, if_pos (by omega), kept.visible]
  refine ⟨_, rfl, ?_, ?_⟩
  · have records : self.allWrites ++ [{ record with visible := true }] =
        self.allWrites ++ [record] := by
      rw [← kept.visible]
    refine ⟨?_, ?_, ?_, ?_⟩
    · dsimp only
      rw [records]
      intro other member
      rcases List.mem_append.mp member with early | newest
      · exact valid.kept other early
      · rw [List.mem_singleton.mp newest]
        exact kept
    · dsimp only
      rw [records]
      exact valid.tells.addWrite separates separatesStrings kept
    · dsimp only
      rw [records]
      intro other member
      rcases List.mem_append.mp member with early | newest
      · have less := valid.below other early
        omega
      · rw [List.mem_singleton.mp newest]
        omega
    · dsimp only
      omega
  · dsimp only
    rw [← kept.visible]

omit [DecidableEq Key] [Std.TransCmp keyComparator]
  [Std.TransCmp stringComparator] in
theorem exists_mem_zipIdx_reverse (property : FWriteRecord Key Value → Prop) :
    (∃ current ∈ records.zipIdx.reverse, property current.1) ↔
      ∃ other ∈ records, property other := by
  have fst : records.zipIdx.map Prod.fst = records := List.zipIdx_map_fst 0 _
  constructor
  · rintro ⟨current, member, holds⟩
    refine ⟨current.1, ?_, holds⟩
    rw [← fst]
    exact List.mem_map_of_mem (List.mem_reverse.mp member)
  · rintro ⟨other, member, holds⟩
    rw [← fst] at member
    obtain ⟨current, inside, rfl⟩ := List.mem_map.mp member
    exact ⟨current, List.mem_reverse.mpr inside, holds⟩

/-- Taking out the earliest write. -/
theorem Valid.removeWriteId (separates : Separates keyComparator named)
    (separatesStrings : Separates stringComparator named) {next : Int}
    (valid : Valid keyComparator stringComparator named next self)
    (first : self.allWrites = record :: records) :
    ∃ removed events, self.removeWriteId keyComparator stringComparator
        record.writeId = some (removed, events) ∧
      Valid keyComparator stringComparator named next removed ∧
      removed.allWrites = records := by
  have kept := valid.kept
  have below := valid.below
  have tells := valid.tells
  rw [first] at kept below tells
  have recordKept := kept record List.mem_cons_self
  have othersKept : ∀ other ∈ records, Kept keyComparator named other :=
    fun other member => kept other (List.mem_cons_of_mem record member)
  have othersBelow : ∀ other ∈ records, other.writeId < next :=
    fun other member => below other (List.mem_cons_of_mem record member)
  have index : (self.allWrites.findIdx? fun other =>
      decide (other.writeId = record.writeId)) = some 0 := by
    rw [first, List.findIdx?_cons]
    simp
  have item : self.allWrites[0]? = some record := by
    rw [first]
    rfl
  have erased : self.allWrites.eraseIdx 0 = records := by
    rw [first]
    rfl
  have visible : ∀ current ∈ records.zipIdx.reverse,
      current.1.visible = true := by
    intro current member
    have inside : current.1 ∈ records :=
      List.fst_mem_of_mem_zipIdx (List.mem_reverse.mp member)
    exact (othersKept current.1 inside).visible
  rw [FWriteTree.removeWriteId, index]
  dsimp only
  rw [item]
  dsimp only
  rw [erased, recordKept.visible]
  have found := @foldl_compareWithRemoved _ _ _ record _ visible false
  generalize records.zipIdx.reverse.foldl (compareWithRemoved record 0)
    (true, false) = flags at found ⊢
  obtain ⟨removedWriteWasVisible, overlaps⟩ := flags
  rcases found with ⟨hidden, shadow⟩ | ⟨stays, unshadowed, overlap⟩
  · obtain rfl : removedWriteWasVisible = false := hidden
    obtain ⟨later, member, covers⟩ := (exists_mem_zipIdx_reverse
      fun other => other.path <+: record.path).mp shadow
    refine ⟨_, _, rfl, ⟨othersKept, ⟨tells.wellFormed, ?_⟩, othersBelow,
      valid.last⟩, rfl⟩
    intro path names
    rw [tells.complete path names, told, List.map_cons]
    exact PendingOverwrites.complete_cons_of_shadowed
      ⟨later.pending, List.mem_map_of_mem member, covers⟩
  · obtain rfl : removedWriteWasVisible = true := stays
    cases overlaps with
    | true =>
        refine ⟨_, _, rfl, ⟨othersKept, ?_, othersBelow, ?_⟩, rfl⟩
        · exact .layerTreeFromWrites separates separatesStrings othersKept
        · have inside := (overlap.mp rfl).resolve_left (by decide)
          obtain ⟨later, member, _⟩ := (exists_mem_zipIdx_reverse
            fun other => record.path <+: other.path).mp inside
          have some : records ≠ [] := List.ne_nil_of_mem member
          change (records.getLast?.map FWriteRecord.writeId).getD (-1) < next
          rw [List.getLast?_eq_getLast_of_ne_nil some]
          exact othersBelow _ (List.getLast_mem some)
    | false =>
        refine ⟨_, _, rfl, ⟨othersKept, ?_, othersBelow, valid.last⟩, rfl⟩
        refine tells.removeWriteAtPath separatesStrings recordKept ?_
        intro other member
        constructor
        · intro covers
          obtain ⟨current, inside, above⟩ := (exists_mem_zipIdx_reverse
            fun other => other.path <+: record.path).mpr
              ⟨other, member, covers⟩
          exact unshadowed current inside above
        · intro covers
          have inside := (exists_mem_zipIdx_reverse
            fun other => record.path <+: other.path).mpr
              ⟨other, member, covers⟩
          have impossible := overlap.mpr (Or.inr inside)
          cases impossible

end FWriteTree

end Firebase
end PocketChef
