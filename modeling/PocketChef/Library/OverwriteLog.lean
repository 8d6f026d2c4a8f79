import Mathlib.Data.List.Induction
import PocketChef.Library.Retransmission

/-!
# Logs of overwrites

An overwrite drops some of the stored items and appends its own, which it
would drop if it were applied again.  Deleting, replacing and assigning are
overwrites; incrementing is not.

The last overwrites of a log decide: what comes before a stretch of the log
has no effect where every overwrite of it occurs in that stretch again.  A
sender may therefore repeat a stretch whose delivery it is not sure of.
-/

universe u

structure Overwrite (Item : Type u) where
  keeps : Item → Bool
  adds : List Item
  clears : ∀ item ∈ adds, keeps item = false

namespace Overwrite

variable {Item : Type u}

def apply (stored : List Item) (write : Overwrite Item) : List Item :=
  stored.filter write.keeps ++ write.adds

/-- What overwrites nothing. -/
def nothing : Overwrite Item where
  keeps := fun _ => true
  adds := []
  clears := fun _ member => absurd member List.not_mem_nil

@[simp]
theorem apply_nothing (stored : List Item) : apply stored nothing = stored := by
  simp [apply, nothing]

def applyAll (stored : List Item) (log : List (Overwrite Item)) : List Item :=
  log.foldl apply stored

theorem applyAll_append (stored : List Item)
    (first second : List (Overwrite Item)) :
    applyAll stored (first ++ second) =
      applyAll (applyAll stored first) second :=
  List.foldl_append

/-- Every overwrite of the log keeps the item. -/
def keptBy (log : List (Overwrite Item)) (item : Item) : Bool :=
  log.all fun write => write.keeps item

theorem keptBy_of_subset {some all : List (Overwrite Item)}
    (subset : some ⊆ all) {item : Item} (kept : keptBy all item = true) :
    keptBy some item = true := by
  rw [keptBy, List.all_eq_true] at kept ⊢
  intro write member
  exact kept write (subset member)

/-- A log drops stored items, and what it adds does not depend on them. -/
theorem applyAll_eq (stored : List Item) (log : List (Overwrite Item)) :
    applyAll stored log = stored.filter (keptBy log) ++ applyAll [] log := by
  induction log using List.reverseRecOn with
  | nil =>
      have kept : stored.filter (keptBy []) = stored :=
        List.filter_eq_self.mpr fun _ _ => rfl
      rw [kept]
      exact (List.append_nil stored).symm
  | append_singleton earlier write inductionHypothesis =>
      have dropped :
          (stored.filter (keptBy earlier)).filter write.keeps =
            stored.filter (keptBy (earlier ++ [write])) := by
        rw [List.filter_filter]
        apply List.filter_congr
        intro item _
        simp [keptBy, Bool.and_comm]
      rw [applyAll_append, applyAll_append, inductionHypothesis]
      simp only [applyAll, List.foldl_cons, List.foldl_nil, apply,
        List.filter_append, dropped, List.append_assoc]

/-- What a log adds, it drops when it is applied again. -/
theorem not_keptBy_of_added {log : List (Overwrite Item)} {item : Item}
    (added : item ∈ applyAll [] log) : keptBy log item = false := by
  induction log using List.reverseRecOn with
  | nil =>
      cases added
  | append_singleton earlier write inductionHypothesis =>
      have split : keptBy (earlier ++ [write]) item =
          (keptBy earlier item && write.keeps item) := by
        simp [keptBy]
      rw [split, Bool.and_eq_false_iff]
      rw [applyAll_append] at added
      rcases List.mem_append.mp added with old | new
      · exact Or.inl (inductionHypothesis (List.mem_filter.mp old).1)
      · exact Or.inr (write.clears item new)

/-- A stretch of the log has no effect before one that repeats all of it. -/
theorem applyAll_absorb (stored : List Item)
    {first second : List (Overwrite Item)} (repeated : first ⊆ second) :
    applyAll stored (first ++ second) = applyAll stored second := by
  have stays :
      (stored.filter (keptBy first)).filter (keptBy second) =
        stored.filter (keptBy second) := by
    rw [List.filter_filter]
    apply List.filter_congr
    intro item _
    cases kept : keptBy second item with
    | false => rfl
    | true => rw [keptBy_of_subset repeated kept]; rfl
  have lost : (applyAll [] first).filter (keptBy second) = [] := by
    rw [List.filter_eq_nil_iff]
    intro item added kept
    have absent := not_keptBy_of_added added
    rw [keptBy_of_subset repeated kept] at absent
    cases absent
  rw [applyAll_append, applyAll_eq stored first,
    applyAll_eq (stored.filter (keptBy first) ++ applyAll [] first) second,
    List.filter_append, stays, lost, List.append_nil, ← applyAll_eq]

theorem absorbing : Retransmission.Absorbing (@apply Item) :=
  fun stored _ _ repeated => applyAll_absorb stored repeated

end Overwrite
