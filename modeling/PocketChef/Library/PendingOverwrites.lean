import Mathlib.Data.List.Infix

/-!
# Overwrites that are not yet confirmed

A client has written values at paths of a tree of which it does not know the
rest.  What it knows about a path comes from the last write at the path or
above it and from the later writes below.

`part` gives the value at a path inside a value, and `put` replaces it.
-/

namespace PendingOverwrites

universe u v

variable {Key : Type u} {Value : Type v} [DecidableEq Key]
variable (part : Value → List Key → Value)
variable (put : Value → List Key → Value → Value)

/-- What is known about a path after one more write. -/
def after (path : List Key) (known : Option Value)
    (write : List Key × Value) : Option Value :=
  if write.1 <+: path then some (part write.2 (path.drop write.1.length))
  else if path <+: write.1 then
    known.map fun value => put value (write.1.drop path.length) write.2
  else known

/-- What the writes tell about a path, the earliest of them first. -/
def complete (writes : List (List Key × Value)) (path : List Key) :
    Option Value :=
  writes.foldl (after part put path) none

variable {part put}
variable {write : List Key × Value} {writes : List (List Key × Value)}
variable {path : List Key} {known : Option Value}

theorem complete_append_singleton :
    complete part put (writes ++ [write]) path =
      after part put path (complete part put writes path) write :=
  List.foldl_append

theorem after_of_above (above : write.1 <+: path) :
    after part put path known write =
      some (part write.2 (path.drop write.1.length)) :=
  if_pos above

theorem after_of_apart (notAbove : ¬ write.1 <+: path)
    (notBelow : ¬ path <+: write.1) :
    after part put path known write = known := by
  rw [after, if_neg notAbove, if_neg notBelow]

/-- A write that is not above the path tells nothing alone. -/
theorem after_none (notAbove : ¬ write.1 <+: path) :
    after part put path none write = none := by
  rw [after, if_neg notAbove, Option.map_none, ite_self]

/-- Nothing known before a write above the path matters. -/
theorem foldl_after_of_covered {first second : Option Value}
    (covered : ∃ later ∈ writes, later.1 <+: path) :
    writes.foldl (after part put path) first =
      writes.foldl (after part put path) second := by
  induction writes generalizing first second with
  | nil =>
      obtain ⟨later, member, _⟩ := covered
      cases member
  | cons write rest inductionHypothesis =>
      rw [List.foldl_cons, List.foldl_cons]
      by_cases above : write.1 <+: path
      · rw [after_of_above above, after_of_above above]
      · refine inductionHypothesis ?_
        obtain ⟨later, member, covers⟩ := covered
        rcases List.mem_cons.mp member with rfl | tail
        · exact absurd covers above
        · exact ⟨later, tail, covers⟩

/-- Something is known exactly about what is covered by a write. -/
theorem complete_isSome_iff :
    (complete part put writes path).isSome = true ↔
      ∃ write ∈ writes, write.1 <+: path := by
  induction writes using List.reverseRecOn with
  | nil => simp [complete]
  | append_singleton rest write inductionHypothesis =>
      rw [complete_append_singleton]
      by_cases above : write.1 <+: path
      · rw [after_of_above above]
        simp only [Option.isSome_some, true_iff]
        exact ⟨write, by simp, above⟩
      · have only : (∃ other ∈ rest ++ [write], other.1 <+: path) ↔
            ∃ other ∈ rest, other.1 <+: path := by
          constructor
          · rintro ⟨other, member, covers⟩
            rcases List.mem_append.mp member with early | last
            · exact ⟨other, early, covers⟩
            · rw [List.mem_singleton.mp last] at covers
              exact absurd covers above
          · rintro ⟨other, member, covers⟩
            exact ⟨other, List.mem_append_left _ member, covers⟩
        rw [only, ← inductionHypothesis, after, if_neg above]
        split
        · rw [Option.isSome_map]
        · rfl

theorem complete_eq_none_iff :
    complete part put writes path = none ↔
      ∀ write ∈ writes, ¬ write.1 <+: path := by
  rw [← Option.not_isSome_iff_eq_none, complete_isSome_iff]
  simp

/-! ## Forgetting the first write -/

/-- A write tells nothing more once a later one is at its path or above. -/
theorem complete_cons_of_shadowed
    (shadowed : ∃ later ∈ writes, later.1 <+: write.1) :
    complete part put (write :: writes) path =
      complete part put writes path := by
  rw [complete, List.foldl_cons]
  by_cases above : write.1 <+: path
  · obtain ⟨later, member, covers⟩ := shadowed
    exact foldl_after_of_covered ⟨later, member, covers.trans above⟩
  · rw [after_none above]
    rfl

theorem complete_cons_of_not_above (notAbove : ¬ write.1 <+: path) :
    complete part put (write :: writes) path =
      complete part put writes path := by
  rw [complete, List.foldl_cons, after_none notAbove]
  rfl

/-- Nothing is known below a write that is forgotten, if no later write is
above it or below it. -/
theorem complete_eq_none_of_apart
    (apart : ∀ later ∈ writes,
      ¬ later.1 <+: write.1 ∧ ¬ write.1 <+: later.1)
    (below : write.1 <+: path) : complete part put writes path = none := by
  refine complete_eq_none_iff.mpr fun later member covers => ?_
  obtain ⟨notAbove, notBelow⟩ := apart later member
  rcases List.prefix_or_prefix_of_prefix covers below with above | under
  · exact notAbove above
  · exact notBelow under

end PendingOverwrites
