import PocketChef.Firebase.FLLRBNode

/-!
# Balanced nodes and insertion

`Balanced` has the colour of a node and its black depth.  These are the nodes
that `check` accepts.  An insertion below a red node can leave a red left
child under it, which the `fixUp` of the next node removes.
-/

namespace PocketChef
namespace Firebase

universe u v

namespace FLLRBNode

variable {Key : Type u} {Value : Type v}

inductive Balanced : Bool → Nat → FLLRBNode Key Value → Prop
  | empty : Balanced false 0 empty
  | black {color depth left right} (key : Key) (val : Value)
      (leftBalanced : Balanced color depth left)
      (rightBalanced : Balanced false depth right) :
      Balanced false (depth + 1) (value key val false left right)
  | red {depth left right} (key : Key) (val : Value)
      (leftBalanced : Balanced false depth left)
      (rightBalanced : Balanced false depth right) :
      Balanced true depth (value key val true left right)

namespace Balanced

variable {color : Bool} {depth : Nat} {self : FLLRBNode Key Value}

theorem isRed_eq (balanced : Balanced color depth self) :
    self.isRed = color := by
  cases balanced <;> rfl

theorem left_black (balanced : Balanced true depth self) :
    self.left.isRed = false := by
  cases balanced with
  | red key val leftBalanced _ => exact leftBalanced.isRed_eq

/-- No red node has a red left child. -/
theorem not_both_red (balanced : Balanced color depth self) :
    (self.isRed && self.left.isRed) = false := by
  cases color with
  | false => rw [balanced.isRed_eq]; rfl
  | true => rw [balanced.left_black, Bool.and_false]

theorem eq_empty (balanced : Balanced false 0 self) : self = .empty := by
  cases balanced
  rfl

end Balanced

/-- The nodes that `check` accepts are the balanced ones. -/
theorem check_eq_some_iff {self : FLLRBNode Key Value} {depth : Nat} :
    self.check = some depth ↔ ∃ color, Balanced color depth self := by
  induction self generalizing depth with
  | empty =>
      constructor
      · intro checked
        rw [← Option.some.inj checked]
        exact ⟨false, Balanced.empty⟩
      · rintro ⟨color, balanced⟩
        cases balanced
        rfl
  | value key val color left right leftHypothesis rightHypothesis =>
      constructor
      · intro checked
        rw [check] at checked
        by_cases doubled : (color && left.isRed) = true
        · rw [if_pos doubled] at checked
          cases checked
        · rw [if_neg doubled] at checked
          by_cases leaning : right.isRed = true
          · rw [if_pos leaning] at checked
            cases checked
          · rw [if_neg leaning] at checked
            rcases Option.bind_eq_some_iff.mp checked with
              ⟨leftDepth, leftChecked, afterLeft⟩
            rcases Option.bind_eq_some_iff.mp afterLeft with
              ⟨rightDepth, rightChecked, afterRight⟩
            rcases leftHypothesis.mp leftChecked with
              ⟨leftColor, leftBalanced⟩
            rcases rightHypothesis.mp rightChecked with
              ⟨rightColor, rightBalanced⟩
            by_cases same : leftDepth = rightDepth
            · rw [if_neg (not_not.mpr same)] at afterRight
              rw [← Option.some.inj afterRight]
              subst same
              rw [Bool.not_eq_true, rightBalanced.isRed_eq] at leaning
              subst leaning
              cases color with
              | false =>
                  exact ⟨false, .black key val leftBalanced rightBalanced⟩
              | true =>
                  rw [Bool.true_and, Bool.not_eq_true,
                    leftBalanced.isRed_eq] at doubled
                  subst doubled
                  exact ⟨true, .red key val leftBalanced rightBalanced⟩
            · rw [if_pos same] at afterRight
              cases afterRight
      · rintro ⟨other, balanced⟩
        cases balanced with
        | black _ _ leftBalanced rightBalanced =>
            rw [check, leftHypothesis.mpr ⟨_, leftBalanced⟩,
              rightHypothesis.mpr ⟨_, rightBalanced⟩, rightBalanced.isRed_eq]
            simp
        | red _ _ leftBalanced rightBalanced =>
            rw [check, leftHypothesis.mpr ⟨_, leftBalanced⟩,
              rightHypothesis.mpr ⟨_, rightBalanced⟩, rightBalanced.isRed_eq,
              leftBalanced.isRed_eq]
            simp

/-! ## What `fixUp` does -/

section FixUp

variable {left right a b c : FLLRBNode Key Value}
variable (key : Key) (val : Value) (color : Bool)

theorem fixUp_of_done (rightBlack : right.isRed = false)
    (leftDone : (left.isRed && left.left.isRed) = false) :
    (value key val color left right).fixUp =
      value key val color left right := by
  simp only [fixUp, right_value, left_value, rightBlack, leftDone,
    Bool.false_and, Bool.and_false, Bool.false_eq_true, if_false]

theorem fixUp_of_red_right (leftBlack : left.isRed = false)
    (aKey : Key) (aVal : Value) (bBlack : b.isRed = false) :
    (value key val color left (value aKey aVal true a b)).fixUp =
      value aKey aVal color (value key val true left a) b := by
  simp [fixUp, leftBlack, bBlack, rotateLeft]

theorem fixUp_of_two_red (aKey : Key) (aVal : Value) (bKey : Key)
    (bVal : Value) (aBlack : a.isRed = false) {d : FLLRBNode Key Value} :
    (value key val color (value aKey aVal true a b)
      (value bKey bVal true c d)).fixUp =
        value key val (!color) (value aKey aVal false a b)
          (value bKey bVal false c d) := by
  simp [fixUp, aBlack, colorFlip]

theorem fixUp_of_double_red (rightBlack : right.isRed = false) (aKey : Key)
    (aVal : Value) (bKey : Key) (bVal : Value) :
    (value key val color
      (value bKey bVal true (value aKey aVal true a b) c) right).fixUp =
        value bKey bVal (!color) (value aKey aVal false a b)
          (value key val false c right) := by
  simp [fixUp, rightBlack, colorFlip, rotateRight]

end FixUp

/-! ## Insertion -/

/-- A balanced node, except that a red one may have a red left child. -/
inductive Sprouted (depth : Nat) : FLLRBNode Key Value → Prop
  | balanced {color self} (balanced : Balanced color depth self) :
      Sprouted depth self
  | doubled {left right} (key : Key) (val : Value)
      (leftBalanced : Balanced true depth left)
      (rightBalanced : Balanced false depth right) :
      Sprouted depth (value key val true left right)

variable {color : Bool} {depth : Nat} {self left right : FLLRBNode Key Value}
variable {comparator : Key → Key → Ordering} {aKey : Key} {aValue : Value}

/-- A black node takes up what an insertion left of its left child. -/
theorem Sprouted.fixUp_left (key : Key) (val : Value)
    (sprouted : Sprouted depth left)
    (rightBalanced : Balanced false depth right) :
    ∃ color, Balanced color (depth + 1)
      (value key val false left right).fixUp := by
  cases sprouted with
  | balanced leftBalanced =>
      rw [fixUp_of_done key val false rightBalanced.isRed_eq
        leftBalanced.not_both_red]
      exact ⟨false, Balanced.black key val leftBalanced rightBalanced⟩
  | doubled bKey bVal doubleRed inner =>
      cases doubleRed with
      | red aKey aVal first second =>
          rw [fixUp_of_double_red key val false rightBalanced.isRed_eq]
          exact ⟨true, Balanced.red bKey bVal
            (Balanced.black aKey aVal first second)
            (Balanced.black key val inner rightBalanced)⟩

/-- A black node with a right child that an insertion may have made red. -/
theorem fixUp_right {leftColor rightColor : Bool} (key : Key) (val : Value)
    (leftBalanced : Balanced leftColor depth left)
    (rightBalanced : Balanced rightColor depth right) :
    ∃ color, Balanced color (depth + 1)
      (value key val false left right).fixUp := by
  cases rightBalanced with
  | empty =>
      rw [fixUp_of_done key val false rfl leftBalanced.not_both_red]
      exact ⟨false, Balanced.black key val leftBalanced Balanced.empty⟩
  | black bKey bVal first second =>
      rw [fixUp_of_done key val false rfl leftBalanced.not_both_red]
      exact ⟨false, Balanced.black key val leftBalanced
        (Balanced.black bKey bVal first second)⟩
  | red bKey bVal first second =>
      cases leftBalanced with
      | empty =>
          rw [fixUp_of_red_right key val false rfl bKey bVal second.isRed_eq]
          exact ⟨false, Balanced.black bKey bVal
            (Balanced.red key val Balanced.empty first) second⟩
      | black cKey cVal third fourth =>
          rw [fixUp_of_red_right key val false rfl bKey bVal second.isRed_eq]
          exact ⟨false, Balanced.black bKey bVal
            (Balanced.red key val (Balanced.black cKey cVal third fourth)
              first) second⟩
      | red cKey cVal third fourth =>
          rw [fixUp_of_two_red key val false cKey cVal bKey bVal
            third.isRed_eq]
          exact ⟨true, Balanced.red key val
            (Balanced.black cKey cVal third fourth)
            (Balanced.black bKey bVal first second)⟩

/-- A red node whose right child an insertion may have made red. -/
theorem Sprouted.fixUp_right {rightColor : Bool} (key : Key) (val : Value)
    (leftBalanced : Balanced false depth left)
    (rightBalanced : Balanced rightColor depth right) :
    Sprouted depth (value key val true left right).fixUp := by
  have leftDone : (left.isRed && left.left.isRed) = false :=
    leftBalanced.not_both_red
  cases rightBalanced with
  | empty =>
      rw [fixUp_of_done key val true rfl leftDone]
      exact .balanced (Balanced.red key val leftBalanced Balanced.empty)
  | black bKey bVal first second =>
      rw [fixUp_of_done key val true rfl leftDone]
      exact .balanced (Balanced.red key val leftBalanced
        (Balanced.black bKey bVal first second))
  | red bKey bVal first second =>
      rw [fixUp_of_red_right key val true leftBalanced.isRed_eq bKey bVal
        second.isRed_eq]
      exact .doubled bKey bVal (Balanced.red key val leftBalanced first)
        second

/-- An insertion into a black node leaves a balanced node, and into a red one
at most a red left child under it. -/
theorem Balanced.insertKey (balanced : Balanced color depth self) :
    Sprouted depth (self.insertKey comparator aKey aValue) ∧
      (color = false → ∃ grown,
        Balanced grown depth (self.insertKey comparator aKey aValue)) := by
  induction balanced with
  | empty =>
      have leaf : Balanced true 0
          (value aKey aValue true .empty .empty : FLLRBNode Key Value) :=
        Balanced.red aKey aValue Balanced.empty Balanced.empty
      exact ⟨.balanced leaf, fun _ => ⟨true, leaf⟩⟩
  | @black leftColor depth left right key val leftBalanced rightBalanced
      leftHypothesis rightHypothesis =>
      have grown : ∃ color, Balanced color (depth + 1)
          ((value key val false left right).insertKey comparator aKey
            aValue) := by
        rw [FLLRBNode.insertKey]
        cases comparator aKey key with
        | lt => exact leftHypothesis.1.fixUp_left key val rightBalanced
        | eq =>
            exact (Sprouted.balanced leftBalanced).fixUp_left key aValue
              rightBalanced
        | gt =>
            rcases rightHypothesis.2 rfl with ⟨rightColor, rightGrown⟩
            exact FLLRBNode.fixUp_right key val leftBalanced rightGrown
      rcases grown with ⟨grownColor, grownBalanced⟩
      exact ⟨.balanced grownBalanced, fun _ => ⟨grownColor, grownBalanced⟩⟩
  | @red depth left right key val leftBalanced rightBalanced leftHypothesis
      rightHypothesis =>
      refine ⟨?_, fun other => by cases other⟩
      rw [FLLRBNode.insertKey]
      cases comparator aKey key with
      | lt =>
          rcases leftHypothesis.2 rfl with ⟨leftColor, leftGrown⟩
          change Sprouted depth (value key val true _ right).fixUp
          rw [fixUp_of_done key val true rightBalanced.isRed_eq
            leftGrown.not_both_red]
          cases leftColor with
          | false =>
              exact .balanced (Balanced.red key val leftGrown rightBalanced)
          | true => exact .doubled key val leftGrown rightBalanced
      | eq => exact Sprouted.fixUp_right key aValue leftBalanced rightBalanced
      | gt =>
          rcases rightHypothesis.2 rfl with ⟨rightColor, rightGrown⟩
          exact Sprouted.fixUp_right key val leftBalanced rightGrown

end FLLRBNode

end Firebase
end PocketChef
