import PocketChef.Firebase.FLLRBBalance

/-!
# Removal from balanced nodes

`remove` and `removeMin` walk down to a child that is red or has a red left
child, so that an entry can be taken out of it without a change of the black
depth.  `borrowLeft` and `borrowRight` provide such a child; `fixUp` puts the
colours back.

At an entry that is found, `remove` puts the smallest entry of the right
subtree in its place, and then searches the rest of that subtree for the key
once more.  This second search finds nothing.
-/

namespace PocketChef
namespace Firebase

universe u v

namespace FLLRBNode

variable {Key : Type u} {Value : Type v}

/-! ## Shapes -/

/-- A node of any colour with two black children. -/
inductive Two (color : Bool) (depth : Nat) : FLLRBNode Key Value → Prop
  | mk {left right} (key : Key) (val : Value)
      (leftBalanced : Balanced false depth left)
      (rightBalanced : Balanced false depth right) :
      Two color depth (value key val color left right)

/-- A black node with a red left child. -/
inductive Three (depth : Nat) : FLLRBNode Key Value → Prop
  | mk {left right} (key : Key) (val : Value)
      (leftBalanced : Balanced true depth left)
      (rightBalanced : Balanced false depth right) :
      Three depth (value key val false left right)

/-- What a removal leaves of a node of the shape `Two`. -/
inductive Loose (color : Bool) : Nat → FLLRBNode Key Value → Prop
  | gone : Loose color 0 empty
  | kept {depth self} (two : Two color depth self) : Loose color depth self
  | merged {leftColor depth left right} (key : Key) (val : Value)
      (leftBalanced : Balanced leftColor depth left)
      (rightBalanced : Balanced false depth right) :
      Loose color (depth + 1) (value key val (!color) left right)

/-- The nodes from which an entry can be removed without a change of the
black depth. -/
inductive Ripe : Bool → Nat → FLLRBNode Key Value → Prop
  | red {depth self} (balanced : Balanced true depth self) :
      Ripe true depth self
  | three {depth self} (three : Three depth self) :
      Ripe false (depth + 1) self

/-- A node that is ready for a removal from its left child. -/
inductive LeftReady (color : Bool) (depth : Nat) :
    FLLRBNode Key Value → Prop
  | three {left right} (key : Key) (val : Value)
      (ready : Three depth left)
      (rightBalanced : Balanced false (depth + 1) right) :
      LeftReady color depth (value key val color left right)
  | flipped {left right} (key : Key) (val : Value)
      (ready : Balanced true depth left)
      (rightBalanced : Balanced true depth right) :
      LeftReady color depth (value key val (!color) left right)

variable {color : Bool} {depth : Nat} {self left right : FLLRBNode Key Value}

theorem Balanced.two (balanced : Balanced true depth self) :
    Two true depth self := by
  cases balanced with
  | red key val leftBalanced rightBalanced =>
      exact Two.mk key val leftBalanced rightBalanced

theorem Two.balanced (two : Two true depth self) :
    Balanced true depth self := by
  cases two with
  | mk key val leftBalanced rightBalanced =>
      exact Balanced.red key val leftBalanced rightBalanced

theorem Two.balanced_black (two : Two false depth self) :
    Balanced false (depth + 1) self := by
  cases two with
  | mk key val leftBalanced rightBalanced =>
      exact Balanced.black key val leftBalanced rightBalanced

theorem Three.balanced (three : Three depth self) :
    Balanced false (depth + 1) self := by
  cases three with
  | mk key val leftBalanced rightBalanced =>
      exact Balanced.black key val leftBalanced rightBalanced

/-- A black node that is not empty has one of the two shapes. -/
theorem Balanced.two_or_three (balanced : Balanced false (depth + 1) self) :
    Two false depth self ∨ Three depth self := by
  cases balanced with
  | @black leftColor _ _ _ key val leftBalanced rightBalanced =>
      cases leftColor with
      | false => exact Or.inl (Two.mk key val leftBalanced rightBalanced)
      | true => exact Or.inr (Three.mk key val leftBalanced rightBalanced)

theorem Loose.balanced (loose : Loose true depth self) :
    ∃ color, Balanced color depth self := by
  cases loose with
  | gone => exact ⟨false, Balanced.empty⟩
  | kept two => exact ⟨true, two.balanced⟩
  | merged key val leftBalanced rightBalanced =>
      exact ⟨false, Balanced.black key val leftBalanced rightBalanced⟩

/-- At the root the colour does not matter. -/
theorem Loose.withColor_black (loose : Loose color depth self) :
    ∃ depth, Balanced false depth (self.withColor false) := by
  cases loose with
  | gone => exact ⟨0, Balanced.empty⟩
  | kept two =>
      cases two with
      | mk key val leftBalanced rightBalanced =>
          exact ⟨_, Balanced.black key val leftBalanced rightBalanced⟩
  | merged key val leftBalanced rightBalanced =>
      exact ⟨_, Balanced.black key val leftBalanced rightBalanced⟩

/-! ## Making a child ready -/

section Move

variable {a b c d : FLLRBNode Key Value}
variable (key aKey bKey cKey : Key) (val aVal bVal cVal : Value)

theorem moveRedLeft_of_two (cBlack : c.isRed = false) :
    (value key val color (value aKey aVal false a b)
      (value bKey bVal false c d)).moveRedLeft =
        value key val (!color) (value aKey aVal true a b)
          (value bKey bVal true c d) := by
  simp [moveRedLeft, colorFlip, cBlack]

theorem moveRedLeft_of_three {e : FLLRBNode Key Value} :
    (value key val color (value aKey aVal false a b)
      (value bKey bVal false (value cKey cVal true c d) e)).moveRedLeft =
        value cKey cVal color
          (value key val false (value aKey aVal true a b) c)
          (value bKey bVal false d e) := by
  simp [moveRedLeft, colorFlip, rotateRight, rotateLeft]

theorem moveRedRight_of_two (aBlack : a.isRed = false) :
    (value key val color (value aKey aVal false a b)
      (value bKey bVal false c d)).moveRedRight =
        value key val (!color) (value aKey aVal true a b)
          (value bKey bVal true c d) := by
  simp [moveRedRight, colorFlip, aBlack]

theorem moveRedRight_of_three {e : FLLRBNode Key Value} :
    (value key val color
      (value aKey aVal false (value cKey cVal true a b) c)
      (value bKey bVal false d e)).moveRedRight =
        value aKey aVal color (value cKey cVal false a b)
          (value key val false c (value bKey bVal true d e)) := by
  simp [moveRedRight, colorFlip, rotateRight]

end Move

/-! ## The entries -/

section Entries

variable (self : FLLRBNode Key Value)

@[simp]
theorem inorder_withColor (color : Bool) :
    (self.withColor color).inorderTraversal = self.inorderTraversal := by
  cases self <;> rfl

theorem inorder_colorFlip :
    self.colorFlip.inorderTraversal = self.inorderTraversal := by
  cases self with
  | empty => rfl
  | value key val color left right =>
      simp [colorFlip, inorderTraversal]

theorem inorder_rotateLeft (nonempty : self.right.isEmpty = false) :
    self.rotateLeft.inorderTraversal = self.inorderTraversal := by
  cases self with
  | empty => rfl
  | value key val color left right =>
      cases right with
      | empty => cases nonempty
      | value => simp [rotateLeft, inorderTraversal]

theorem inorder_rotateRight (nonempty : self.left.isEmpty = false) :
    self.rotateRight.inorderTraversal = self.inorderTraversal := by
  cases self with
  | empty => rfl
  | value key val color left right =>
      cases left with
      | empty => cases nonempty
      | value => simp [rotateRight, inorderTraversal]

variable {self}

theorem nonempty_of_isRed (red : self.isRed = true) :
    self.isEmpty = false := by
  cases self with
  | empty => cases red
  | value => rfl

theorem nonempty_of_left (nonempty : self.left.isEmpty = false) :
    self.isEmpty = false := by
  cases self with
  | empty => cases nonempty
  | value => rfl

variable (self)

/-- `fixUp` turns only around red children, which are not empty. -/
theorem inorder_fixUp :
    self.fixUp.inorderTraversal = self.inorderTraversal := by
  have leftRotated (n : FLLRBNode Key Value) :
      (if n.right.isRed && !n.left.isRed then n.rotateLeft
        else n).inorderTraversal = n.inorderTraversal := by
    split
    · next turns =>
      rw [Bool.and_eq_true] at turns
      exact inorder_rotateLeft n (nonempty_of_isRed turns.1)
    · rfl
  have rightRotated (n : FLLRBNode Key Value) :
      (if n.left.isRed && n.left.left.isRed then n.rotateRight
        else n).inorderTraversal = n.inorderTraversal := by
    split
    · next turns =>
      rw [Bool.and_eq_true] at turns
      exact inorder_rotateRight n (nonempty_of_isRed turns.1)
    · rfl
  have flipped (n : FLLRBNode Key Value) :
      (if n.left.isRed && n.right.isRed then n.colorFlip
        else n).inorderTraversal = n.inorderTraversal := by
    split
    · exact inorder_colorFlip n
    · rfl
  rw [fixUp]
  rw [flipped, rightRotated, leftRotated]

theorem inorder_moveRedLeft :
    self.moveRedLeft.inorderTraversal = self.inorderTraversal := by
  rw [moveRedLeft, ← inorder_colorFlip self]
  generalize self.colorFlip = n
  cases n with
  | empty => rfl
  | value key val color left right =>
      split
      · next turns =>
        rw [right_value] at turns
        have inner := nonempty_of_isRed turns
        have turned := inorder_rotateRight right inner
        rw [inorder_colorFlip, withRight_value, right_value,
          inorder_rotateLeft]
        · rw [inorderTraversal, inorderTraversal, turned]
        · cases right with
          | empty => cases turns
          | value =>
              rename_i first second
              cases first with
              | empty => cases turns
              | value => rfl
      · rfl

theorem inorder_moveRedRight :
    self.moveRedRight.inorderTraversal = self.inorderTraversal := by
  rw [moveRedRight, ← inorder_colorFlip self]
  generalize self.colorFlip = n
  split
  · next turns =>
    rw [inorder_colorFlip]
    exact inorder_rotateRight n (nonempty_of_left (nonempty_of_isRed turns))
  · rfl

theorem inorder_borrowLeft :
    self.borrowLeft.inorderTraversal = self.inorderTraversal := by
  rw [borrowLeft]
  split
  · exact inorder_moveRedLeft self
  · rfl

theorem inorder_borrowRight :
    self.borrowRight.inorderTraversal = self.inorderTraversal := by
  have leaned : self.leanRight.inorderTraversal = self.inorderTraversal := by
    rw [leanRight]
    split
    · next red => exact inorder_rotateRight self (nonempty_of_isRed red)
    · rfl
  rw [borrowRight]
  split
  · exact (inorder_moveRedRight _).trans leaned
  · exact leaned

end Entries

/-! ## The way to a smaller key -/

/-- What a removal leaves of such a node: a black one stays black. -/
def Shrunk (color : Bool) (depth : Nat) (self : FLLRBNode Key Value) : Prop :=
  ∃ left, (color = false → left = false) ∧ Balanced left depth self

theorem Two.borrowLeft (two : Two color (depth + 1) self) :
    LeftReady color depth self.borrowLeft := by
  cases two with
  | @mk left right key val leftBalanced rightBalanced =>
      rcases leftBalanced.two_or_three with leftTwo | leftThree
      · cases leftTwo with
        | @mk a b aKey aVal first second =>
            have moves : (value key val color (value aKey aVal false a b)
                right).borrowLeft =
                  (value key val color (value aKey aVal false a b)
                    right).moveRedLeft := by
              simp [FLLRBNode.borrowLeft, isEmpty, first.isRed_eq]
            rw [moves]
            rcases rightBalanced.two_or_three with rightTwo | rightThree
            · cases rightTwo with
              | mk bKey bVal third fourth =>
                  rw [moveRedLeft_of_two key aKey bKey val aVal bVal
                    third.isRed_eq]
                  exact LeftReady.flipped key val
                    (Balanced.red aKey aVal first second)
                    (Balanced.red bKey bVal third fourth)
            · cases rightThree with
              | mk bKey bVal redLeft fourth =>
                  cases redLeft with
                  | red cKey cVal fifth sixth =>
                      rw [moveRedLeft_of_three]
                      exact LeftReady.three cKey cVal
                        (Three.mk key val
                          (Balanced.red aKey aVal first second) fifth)
                        (Balanced.black bKey bVal sixth fourth)
      · have stays : (value key val color left right).borrowLeft =
            value key val color left right := by
          cases leftThree with
          | mk aKey aVal redLeft second =>
              simp [FLLRBNode.borrowLeft, isEmpty, redLeft.isRed_eq]
        rw [stays]
        exact LeftReady.three key val leftThree rightBalanced

theorem Three.borrowLeft (three : Three depth self) :
    self.borrowLeft = self := by
  cases three with
  | mk key val leftBalanced rightBalanced =>
      simp [FLLRBNode.borrowLeft, leftBalanced.isRed_eq]

theorem LeftReady.ripe (ready : LeftReady color depth self) :
    Ripe false (depth + 1) self.left ∨ Ripe true depth self.left := by
  cases ready with
  | three key val three _ => exact Or.inl (Ripe.three three)
  | flipped key val balanced _ => exact Or.inr (Ripe.red balanced)

/-- What a black left child was reduced to, under a red right child. -/
theorem fixUp_under_red {leftColor : Bool} (key : Key) (val : Value)
    (leftBalanced : Balanced leftColor depth left)
    (rightBalanced : Balanced true depth right) :
    Loose color (depth + 1) (value key val (!color) left right).fixUp := by
  cases rightBalanced with
  | red bKey bVal third fourth =>
      cases leftBalanced with
      | empty =>
          rw [fixUp_of_red_right key val _ rfl bKey bVal fourth.isRed_eq]
          exact .merged bKey bVal (.red key val .empty third) fourth
      | black aKey aVal first second =>
          rw [fixUp_of_red_right key val _ rfl bKey bVal fourth.isRed_eq]
          exact .merged bKey bVal
            (.red key val (.black aKey aVal first second) third) fourth
      | red aKey aVal first second =>
          rw [fixUp_of_two_red key val _ aKey aVal bKey bVal first.isRed_eq,
            Bool.not_not]
          exact .kept (Two.mk key val (.black aKey aVal first second)
            (.black bKey bVal third fourth))

theorem LeftReady.withLeft (ready : LeftReady color depth self)
    (each : ∀ color depth, Ripe color depth self.left →
      Shrunk color depth left) :
    Loose color (depth + 1) (self.withLeft left).fixUp := by
  cases ready with
  | three key val three rightBalanced =>
      rcases each _ _ (Ripe.three three) with ⟨leftColor, black, balanced⟩
      rw [black rfl] at balanced
      rw [withLeft_value, fixUp_of_done key val color rightBalanced.isRed_eq
        balanced.not_both_red]
      exact .kept (Two.mk key val balanced rightBalanced)
  | flipped key val red rightBalanced =>
      rcases each _ _ (Ripe.red red) with ⟨leftColor, _, balanced⟩
      exact fixUp_under_red key val balanced rightBalanced

/-- Where the left child keeps its colour, so does the node. -/
theorem LeftReady.withLeft_same (ready : LeftReady color depth self)
    (each : ∀ color depth, Balanced color depth self.left →
      Balanced color depth left) :
    Two color (depth + 1) (self.withLeft left).fixUp := by
  cases ready with
  | three key val three rightBalanced =>
      have balanced := each _ _ three.balanced
      rw [withLeft_value, fixUp_of_done key val color rightBalanced.isRed_eq
        balanced.not_both_red]
      exact Two.mk key val balanced rightBalanced
  | flipped key val red rightBalanced =>
      have balanced := each _ _ red
      rw [withLeft_value]
      cases balanced with
      | red aKey aVal first second =>
          cases rightBalanced with
          | red bKey bVal third fourth =>
              rw [fixUp_of_two_red key val _ aKey aVal bKey bVal
                first.isRed_eq, Bool.not_not]
              exact Two.mk key val (.black aKey aVal first second)
                (.black bKey bVal third fourth)

theorem Three.withLeft {leftColor : Bool} (three : Three depth self)
    (leftBalanced : Balanced leftColor depth left) :
    Balanced false (depth + 1) (self.withLeft left).fixUp := by
  cases three with
  | mk key val _ rightBalanced =>
      rw [withLeft_value, fixUp_of_done key val false rightBalanced.isRed_eq
        leftBalanced.not_both_red]
      exact Balanced.black key val leftBalanced rightBalanced

theorem Loose.shrunk (loose : Loose true depth self) :
    Shrunk true depth self := by
  rcases loose.balanced with ⟨left, balanced⟩
  exact ⟨left, (fun other => by cases other), balanced⟩

theorem inorder_withLeft (nonempty : self.isEmpty = false) :
    ∃ entry rest,
      self.inorderTraversal =
        self.left.inorderTraversal ++ entry :: rest ∧
      ∀ left : FLLRBNode Key Value,
        (self.withLeft left).fixUp.inorderTraversal =
          left.inorderTraversal ++ entry :: rest := by
  cases self with
  | empty => cases nonempty
  | value key val color first second =>
      refine ⟨(key, val), second.inorderTraversal, rfl, ?_⟩
      intro left
      rw [inorder_fixUp]
      rfl

theorem inorder_eq_nil_iff :
    self.inorderTraversal = [] ↔ self = .empty := by
  cases self with
  | empty => simp [inorderTraversal]
  | value => simp [inorderTraversal]

theorem min_eq_head? (self : FLLRBNode Key Value) :
    self.min = self.inorderTraversal.head? := by
  induction self with
  | empty => rfl
  | value key val color left right leftHypothesis _ =>
      rw [min]
      cases left with
      | empty => rfl
      | value aKey aVal other first second =>
          rw [if_neg (by rw [isEmpty]; decide), leftHypothesis]
          rw [inorderTraversal.eq_def (value key val color _ right)]
          cases listed :
              (value aKey aVal other first second).inorderTraversal with
          | nil => cases inorder_eq_nil_iff.mp listed
          | cons entry rest =>
              change _ = List.head? ((value aKey aVal other first
                second).inorderTraversal ++ _)
              rw [listed]
              rfl

/-- A node whose left child is empty and that is ready for a removal has no
right child either. -/
theorem Ripe.singleton (ripe : Ripe color depth self)
    (leftEmpty : self.left = .empty) :
    color = true ∧ depth = 0 ∧ self.inorderTraversal.length = 1 := by
  cases ripe with
  | red balanced =>
      cases balanced with
      | red key val leftBalanced rightBalanced =>
          rw [left_value] at leftEmpty
          subst leftEmpty
          cases leftBalanced
          rw [rightBalanced.eq_empty]
          exact ⟨rfl, rfl, rfl⟩
  | three three =>
      cases three with
      | mk key val leftBalanced rightBalanced =>
          rw [left_value] at leftEmpty
          subst leftEmpty
          cases leftBalanced

theorem isEmpty_eq_true_iff : self.isEmpty = true ↔ self = .empty := by
  cases self with
  | empty => exact ⟨fun _ => rfl, fun _ => rfl⟩
  | value =>
      constructor
      · intro other
        cases other
      · intro other
        cases other

/-- A child of the shape `Two` whose left child is not empty has a black depth
to borrow from. -/
theorem Two.exists_depth (two : Two color depth self)
    (nonempty : self.left.isEmpty = false) : ∃ less, depth = less + 1 := by
  cases two with
  | mk key val leftBalanced rightBalanced =>
      cases depth with
      | zero =>
          rw [left_value, leftBalanced.eq_empty] at nonempty
          cases nonempty
      | succ less => exact ⟨less, rfl⟩

theorem LeftReady.nonempty (ready : LeftReady color depth self) :
    self.isEmpty = false := by
  cases ready <;> rfl

/-- `removeMin` takes the first entry out. -/
theorem removeMin_spec (self : FLLRBNode Key Value) :
    ∀ {color depth}, Ripe color depth self →
      Shrunk color depth self.removeMin ∧
        self.removeMin.inorderTraversal = self.inorderTraversal.tail := by
  fun_induction removeMin self with
  | case1 self leftNonempty n =>
      rename_i inductionHypothesis
      intro color depth ripe
      have shrinks : ∀ color depth, Ripe color depth n.left →
          Shrunk color depth n.left.removeMin :=
        fun color depth ready => (inductionHypothesis ready).1
      have entries {color depth} (ready : Ripe color depth n.left)
          (nonempty : n.isEmpty = false) :
          (n.withLeft n.left.removeMin).fixUp.inorderTraversal =
            self.inorderTraversal.tail := by
        rcases inorder_withLeft nonempty with ⟨entry, rest, whole, changed⟩
        have rest' := (inductionHypothesis ready).2
        rw [changed, rest', ← inorder_borrowLeft self, whole]
        cases listed : n.left.inorderTraversal with
        | nil =>
            have gone := inorder_eq_nil_iff.mp listed
            rw [gone] at ready
            cases ready with
            | red balanced => cases balanced
            | three three => cases three
        | cons first others => rfl
      cases ripe with
      | red balanced =>
          rcases balanced.two.exists_depth leftNonempty with ⟨less, rfl⟩
          have ready := balanced.two.borrowLeft
          refine ⟨(ready.withLeft shrinks).shrunk, ?_⟩
          rcases ready.ripe with ripe | ripe
          · exact entries ripe ready.nonempty
          · exact entries ripe ready.nonempty
      | @three less _ three =>
          have stays : n = self := three.borrowLeft
          have ready : Ripe true less n.left := by
            rw [stays]
            cases three with
            | mk key val leftBalanced _ => exact Ripe.red leftBalanced
          have nonempty : n.isEmpty = false := by
            rw [stays]
            exact nonempty_of_left leftNonempty
          refine ⟨?_, entries ready nonempty⟩
          rcases shrinks _ _ ready with ⟨leftColor, _, balanced⟩
          rw [stays] at balanced ⊢
          exact ⟨false, fun _ => rfl, three.withLeft balanced⟩
  | case2 self leftEmpty =>
      intro color depth ripe
      rw [Bool.not_eq_false, isEmpty_eq_true_iff] at leftEmpty
      rcases ripe.singleton leftEmpty with ⟨rfl, rfl, single⟩
      refine ⟨⟨false, fun _ => rfl, Balanced.empty⟩, ?_⟩
      rcases List.length_eq_one_iff.mp single with ⟨entry, only⟩
      rw [only]
      rfl

end FLLRBNode

end Firebase
end PocketChef
