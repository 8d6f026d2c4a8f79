import Mathlib.Data.List.Infix
import Mathlib.Order.Defs.LinearOrder

/-!
# Stripping paths

`strip first second` is what is left of `second` below `first`, where keys are
told apart by a comparator only.  The comparator may take different keys for
the same; on keys that it tells apart, stripping is removing a prefix.
-/

namespace PathStrip

universe u

variable {Key : Type u}

def strip (cmp : Key → Key → Ordering) : List Key → List Key →
    Option (List Key)
  | [], path => some path
  | _ :: _, [] => none
  | front :: rest, other :: others =>
      if cmp front other = .eq then strip cmp rest others else none

/-- The comparator tells the keys with `named` apart. -/
def Separates (cmp : Key → Key → Ordering) (named : Key → Prop) : Prop :=
  ∀ first second, named first → named second →
    cmp first second = .eq → first = second

variable {cmp : Key → Key → Ordering} {named : Key → Prop}
variable {first second third : List Key}

@[simp]
theorem strip_nil (path : List Key) : strip cmp [] path = some path := by
  rw [strip]

@[simp]
theorem strip_cons_nil (front : Key) (rest : List Key) :
    strip cmp (front :: rest) [] = none := by
  rw [strip]

theorem strip_cons_cons (front other : Key) (rest others : List Key) :
    strip cmp (front :: rest) (other :: others) =
      if cmp front other = .eq then strip cmp rest others else none := by
  rw [strip]

/-- Paths that leave nothing of each other. -/
theorem strip_swap [Std.OrientedCmp cmp]
    (stripped : strip cmp first second = some []) :
    strip cmp second first = some [] := by
  induction first generalizing second with
  | nil =>
      rw [strip_nil] at stripped
      rw [Option.some.inj stripped, strip_nil]
  | cons front tail inductionHypothesis =>
      cases second with
      | nil =>
          rw [strip_cons_nil] at stripped
          cases stripped
      | cons other others =>
          rw [strip_cons_cons] at stripped
          split at stripped
          · rename_i equal
            rw [strip_cons_cons, if_pos (Std.OrientedCmp.eq_symm equal)]
            exact inductionHypothesis stripped
          · cases stripped

variable [Std.ReflCmp cmp]

theorem strip_append (first rest : List Key) :
    strip cmp first (first ++ rest) = some rest := by
  induction first with
  | nil => rfl
  | cons front tail inductionHypothesis =>
      rw [List.cons_append, strip_cons_cons, if_pos Std.ReflCmp.compare_self]
      exact inductionHypothesis

/-- On keys that the comparator tells apart, what is left of a path is what
follows the prefix. -/
theorem strip_eq_some_iff (separates : Separates cmp named)
    (firstNamed : ∀ key ∈ first, named key)
    (secondNamed : ∀ key ∈ second, named key) (rest : List Key) :
    strip cmp first second = some rest ↔ second = first ++ rest := by
  constructor
  · intro stripped
    induction first generalizing second with
    | nil =>
        rw [strip_nil] at stripped
        exact Option.some.inj stripped
    | cons front tail inductionHypothesis =>
        cases second with
        | nil =>
            rw [strip_cons_nil] at stripped
            cases stripped
        | cons other others =>
            rw [strip_cons_cons] at stripped
            split at stripped
            · rename_i equal
              rw [separates front other (firstNamed front List.mem_cons_self)
                (secondNamed other List.mem_cons_self) equal, List.cons_append]
              rw [inductionHypothesis
                (fun key member =>
                  firstNamed key (List.mem_cons_of_mem front member))
                (fun key member =>
                  secondNamed key (List.mem_cons_of_mem other member))
                stripped]
            · cases stripped
  · rintro rfl
    exact strip_append first rest

theorem strip_eq_none_iff (separates : Separates cmp named)
    (firstNamed : ∀ key ∈ first, named key)
    (secondNamed : ∀ key ∈ second, named key) :
    strip cmp first second = none ↔ ¬ first <+: second := by
  rw [← not_iff_not, not_not, ← ne_eq, Option.ne_none_iff_exists']
  constructor
  · rintro ⟨rest, stripped⟩
    exact ⟨rest, ((strip_eq_some_iff separates firstNamed secondNamed
      rest).mp stripped).symm⟩
  · rintro ⟨rest, rfl⟩
    exact ⟨rest, strip_append first rest⟩

end PathStrip
