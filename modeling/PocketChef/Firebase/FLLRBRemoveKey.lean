import PocketChef.Firebase.FLLRBRemove

/-!
# Removing a key

`remove` keeps the black depth and takes the entry with the key out of the
entries.  On the way to a larger key it can reach a black node whose right
child is red.  Below such a node it only goes on to the right, since the key
is not smaller than the one of the node.
-/

namespace PocketChef
namespace Firebase

universe u v

open SortedAssoc (Sorted)

namespace FLLRBNode

variable {Key : Type u} {Value : Type v}
/-! ## Shapes on the way -/

/-- A black node with a red right child. -/
inductive Leaning (depth : Nat) : FLLRBNode Key Value → Prop
  | mk {left right} (key : Key) (val : Value)
      (leftBalanced : Balanced false depth left)
      (rightBalanced : Balanced true depth right) :
      Leaning depth (value key val false left right)

/-- The nodes that `remove` reaches, and what it leaves of each. -/
inductive Removable (comparator : Key → Key → Ordering) (aKey : Key) :
    (FLLRBNode Key Value → Prop) → FLLRBNode Key Value → Prop
  | two {color depth self} (two : Two color depth self) :
      Removable comparator aKey (Loose color depth) self
  | three {depth self} (three : Three depth self) :
      Removable comparator aKey (Balanced false (depth + 1)) self
  | leaning {depth self} (leaning : Leaning depth self)
      (notLess : self.compareKey comparator aKey ≠ .lt) :
      Removable comparator aKey (Balanced false (depth + 1)) self

/-- A node that is ready for a removal from its right child, which leaves
`Next` of the child, and then `Left` of the node whatever entry it has. -/
structure RightReady (comparator : Key → Key → Ordering) (aKey key : Key)
    (Next Left : FLLRBNode Key Value → Prop) (color : Bool)
    (left right : FLLRBNode Key Value) : Prop where
  found : comparator aKey key = .gt ∨
    comparator aKey key = .eq ∧ ∃ color depth, Ripe color depth right ∧
      ∀ after : FLLRBNode Key Value, Shrunk color depth after → Next after
  next : Removable comparator aKey Next right
  closes : ∀ after : FLLRBNode Key Value, Next after →
    ∀ key val, Left (value key val color left after).fixUp

variable {color : Bool} {depth : Nat} {self left right : FLLRBNode Key Value}
variable {comparator : Key → Key → Ordering} {aKey : Key}

/-! ## A search that finds nothing -/

theorem Balanced.fixUp (balanced : Balanced color depth self) :
    self.fixUp = self := by
  cases balanced with
  | empty => rfl
  | black key val leftBalanced rightBalanced =>
      exact fixUp_of_done key val false rightBalanced.isRed_eq
        leftBalanced.not_both_red
  | red key val leftBalanced rightBalanced =>
      exact fixUp_of_done key val true rightBalanced.isRed_eq
        leftBalanced.not_both_red

theorem borrowLeft_of_left_empty (leftEmpty : self.left = .empty) :
    self.borrowLeft = self := by
  rw [FLLRBNode.borrowLeft, leftEmpty]
  rfl

theorem remove_empty :
    (empty : FLLRBNode Key Value).remove comparator aKey = .empty := by
  rw [remove]
  rfl

theorem mem_inorder_of_left {entry : Key × Value}
    (member : entry ∈ self.left.inorderTraversal) :
    entry ∈ self.inorderTraversal := by
  cases self with
  | empty => exact member
  | value => exact List.mem_append_left _ member

theorem compareKey_lt_of_all (nonempty : self.isEmpty = false)
    (larger : ∀ entry ∈ self.inorderTraversal,
      comparator aKey entry.1 = .lt) :
    self.compareKey comparator aKey = .lt := by
  cases self with
  | empty => cases nonempty
  | value key val color left right =>
      exact larger (key, val) (List.mem_append_right _ List.mem_cons_self)

/-- A smaller key than all others is not found, and the node keeps its colour
and its black depth. -/
theorem Balanced.remove_smaller (self : FLLRBNode Key Value) :
    (∀ entry ∈ self.inorderTraversal, comparator aKey entry.1 = .lt) →
      (self.remove comparator aKey).inorderTraversal =
        self.inorderTraversal ∧
      ∀ color depth, Balanced color depth self →
        Balanced color depth (self.remove comparator aKey) := by
  fun_induction FLLRBNode.remove comparator aKey self with
  | case1 self nonempty less n =>
      rename_i inductionHypothesis
      intro larger
      have nNonempty : n.isEmpty = false := by
        have counted : n.inorderTraversal = self.inorderTraversal :=
          inorder_borrowLeft self
        cases listed : n.isEmpty with
        | false => rfl
        | true =>
            rw [isEmpty_eq_true_iff.mp listed] at counted
            have gone := inorder_eq_nil_iff.mp counted.symm
            rw [gone] at nonempty
            cases nonempty
      have below : ∀ entry ∈ n.left.inorderTraversal,
          comparator aKey entry.1 = .lt := by
        intro entry member
        apply larger entry
        rw [← inorder_borrowLeft self]
        exact mem_inorder_of_left member
      rcases inductionHypothesis below with ⟨same, keeps⟩
      constructor
      · rcases inorder_withLeft nNonempty with ⟨entry, rest, whole, changed⟩
        rw [changed, same, ← whole]
        exact inorder_borrowLeft self
      · intro color depth balanced
        cases leftListed : self.left.isEmpty with
        | true =>
            have leftEmpty := isEmpty_eq_true_iff.mp leftListed
            have stays : n = self := borrowLeft_of_left_empty leftEmpty
            have unchanged : n.withLeft (n.left.remove comparator aKey) =
                self := by
              rw [stays, leftEmpty, remove_empty]
              cases self with
              | empty => rfl
              | value key val color left right =>
                  rw [left_value] at leftEmpty
                  rw [leftEmpty]
                  rfl
            rw [unchanged, balanced.fixUp]
            exact balanced
        | false =>
            have deep {other} (two : Two other depth self) :
                Two other depth
                  (n.withLeft (n.left.remove comparator aKey)).fixUp := by
              rcases two.exists_depth leftListed with ⟨less, rfl⟩
              exact two.borrowLeft.withLeft_same keeps
            cases color with
            | true => exact (deep balanced.two).balanced
            | false =>
                cases depth with
                | zero =>
                    rw [balanced.eq_empty] at nonempty
                    cases nonempty
                | succ depth =>
                    rcases balanced.two_or_three with two | three
                    · rcases two.exists_depth leftListed with ⟨less, rfl⟩
                      exact (two.borrowLeft.withLeft_same
                        keeps).balanced_black
                    · have stays : n = self := three.borrowLeft
                      have leftRed : Balanced true depth n.left := by
                        rw [stays]
                        cases three with
                        | mk key val leftBalanced _ => exact leftBalanced
                      rw [stays] at keeps leftRed ⊢
                      exact three.withLeft (keeps _ _ leftRed)
  | case2 self nonempty notLess =>
      intro larger
      exact absurd (compareKey_lt_of_all nonempty larger) notLess
  | case3 self nonempty notLess =>
      intro larger
      exact absurd (compareKey_lt_of_all nonempty larger) notLess
  | case4 self nonempty notLess =>
      intro larger
      exact absurd (compareKey_lt_of_all nonempty larger) notLess
  | case5 self isEmpty =>
      intro _
      rw [Bool.not_eq_false, isEmpty_eq_true_iff] at isEmpty
      rw [isEmpty]
      exact ⟨rfl, fun _ _ balanced => balanced⟩

/-! ## The way to the key and to larger ones -/

theorem Loose.of_balanced (balanced : Balanced color depth self) :
    Loose true depth self := by
  cases balanced with
  | empty => exact .gone
  | black key val leftBalanced rightBalanced =>
      exact .merged key val leftBalanced rightBalanced
  | red key val leftBalanced rightBalanced =>
      exact .kept (Two.mk key val leftBalanced rightBalanced)

theorem Removable.of_ripe (ripe : Ripe color depth self) :
    ∃ Next, Removable comparator aKey Next self := by
  cases ripe with
  | red balanced => exact ⟨_, .two balanced.two⟩
  | three three => exact ⟨_, .three three⟩

theorem Loose.of_shrunk (shrunk : Shrunk true depth self) :
    Loose true depth self := by
  rcases shrunk with ⟨color, _, balanced⟩
  exact Loose.of_balanced balanced

theorem Shrunk.black (shrunk : Shrunk false depth self) :
    Balanced false depth self := by
  rcases shrunk with ⟨color, same, balanced⟩
  rw [same rfl] at balanced
  exact balanced

theorem found_of_ripe {Next : FLLRBNode Key Value → Prop} {key : Key}
    (notLess : comparator aKey key ≠ .lt) (ripe : Ripe color depth right)
    (leaves : ∀ after : FLLRBNode Key Value,
      Shrunk color depth after → Next after) :
    comparator aKey key = .gt ∨
      comparator aKey key = .eq ∧ ∃ color depth, Ripe color depth right ∧
        ∀ after : FLLRBNode Key Value,
          Shrunk color depth after → Next after := by
  cases order : comparator aKey key with
  | lt => exact absurd order notLess
  | eq => exact Or.inr ⟨rfl, _, _, ripe, leaves⟩
  | gt => exact Or.inl rfl

/-- Below a node whose right child is red, the key is among the larger ones or
that of the node. -/
theorem Leaning.rightReady {key : Key}
    (notLess : comparator aKey key ≠ .lt)
    (leftBalanced : Balanced false depth left)
    (rightBalanced : Balanced true depth right) :
    RightReady comparator aKey key (Loose true depth)
      (Balanced false (depth + 1)) false left right where
  found := found_of_ripe notLess (Ripe.red rightBalanced)
    fun _ shrunk => Loose.of_shrunk shrunk
  next := .two rightBalanced.two
  closes := by
    intro after next key val
    rcases next.balanced with ⟨color, balanced⟩
    cases balanced with
    | empty =>
        rw [fixUp_of_done key val false rfl leftBalanced.not_both_red]
        exact .black key val leftBalanced .empty
    | black bKey bVal first second =>
        rw [fixUp_of_done key val false rfl leftBalanced.not_both_red]
        exact .black key val leftBalanced (.black bKey bVal first second)
    | red bKey bVal first second =>
        rw [fixUp_of_red_right key val false leftBalanced.isRed_eq bKey bVal
          second.isRed_eq]
        exact .black bKey bVal (.red key val leftBalanced first) second

theorem Leaning.borrowRight (leaning : Leaning depth self) :
    self.borrowRight = self := by
  cases leaning with
  | mk key val leftBalanced rightBalanced =>
      simp [FLLRBNode.borrowRight, leanRight, leftBalanced.isRed_eq,
        rightBalanced.isRed_eq]

theorem Removable.nonempty {Left : FLLRBNode Key Value → Prop}
    (removable : Removable comparator aKey Left self) :
    self.isEmpty = false := by
  cases removable with
  | two two => cases two; rfl
  | three three => cases three; rfl
  | leaning leaning _ => cases leaning; rfl

theorem Shrunk.remove_smaller (shrunk : Shrunk color depth self)
    (larger : ∀ entry ∈ self.inorderTraversal,
      comparator aKey entry.1 = .lt) :
    Shrunk color depth (self.remove comparator aKey) := by
  rcases shrunk with ⟨left, same, balanced⟩
  exact ⟨left, same, (Balanced.remove_smaller self larger).2 _ _ balanced⟩

variable [Std.TransCmp comparator]

theorem gt_of_not_lt {key smaller : Key}
    (notLess : comparator aKey key ≠ .lt)
    (less : comparator smaller key = .lt) :
    comparator aKey smaller = .gt := by
  cases order : comparator aKey key with
  | lt => exact absurd order notLess
  | eq =>
      rw [Std.TransCmp.congr_left order]
      exact Std.OrientedCmp.gt_of_lt less
  | gt =>
      exact Std.TransCmp.gt_trans order (Std.OrientedCmp.gt_of_lt less)

/-- The red left child becomes the node, and the node its red right child. -/
theorem Three.borrowRight (three : Three depth self)
    (sorted : Sorted comparator self.inorderTraversal)
    (notLess : self.compareKey comparator aKey ≠ .lt) :
    ∃ key val color left right Next,
      self.borrowRight = value key val color left right ∧
      RightReady comparator aKey key Next (Balanced false (depth + 1)) color
        left right := by
  cases three with
  | @mk _ right key val leftBalanced rightBalanced =>
      cases leftBalanced with
      | @red _ a b aKey' aVal first second =>
          refine ⟨aKey', aVal, false, a, value key val true b right,
            Loose true depth, ?_, ?_⟩
          · simp [FLLRBNode.borrowRight, leanRight, rotateRight, isEmpty]
          · apply Leaning.rightReady _ first
              (Balanced.red key val second rightBalanced)
            have less : comparator aKey' key = .lt := by
              rw [inorderTraversal, inorderTraversal] at sorted
              exact sorted.lt_of_left
                (List.mem_append_right _ List.mem_cons_self)
            rw [gt_of_not_lt notLess less]
            decide

theorem Two.borrowRight (two : Two color (depth + 1) self)
    (sorted : Sorted comparator self.inorderTraversal)
    (notLess : self.compareKey comparator aKey ≠ .lt) :
    ∃ key val rightColor left right Next,
      self.borrowRight = value key val rightColor left right ∧
      RightReady comparator aKey key Next (Loose color (depth + 1)) rightColor
        left right := by
  cases two with
  | @mk left right key val leftBalanced rightBalanced =>
      rcases rightBalanced.two_or_three with rightTwo | rightThree
      · cases rightTwo with
        | @mk c d bKey bVal third fourth =>
            have moves : (value key val color left
                (value bKey bVal false c d)).borrowRight =
                  (value key val color left
                    (value bKey bVal false c d)).moveRedRight := by
              simp [FLLRBNode.borrowRight, leanRight, leftBalanced.isRed_eq,
                isEmpty, third.isRed_eq]
            rw [moves]
            rcases leftBalanced.two_or_three with leftTwo | leftThree
            · cases leftTwo with
              | @mk a b aKey' aVal first second =>
                  have redRight := Balanced.red bKey bVal third fourth
                  rw [moveRedRight_of_two key aKey' bKey val aVal bVal
                    first.isRed_eq]
                  refine ⟨_, _, _, _, _, _, rfl, ?_, .two redRight.two, ?_⟩
                  · exact found_of_ripe notLess (Ripe.red redRight)
                      fun _ shrunk => Loose.of_shrunk shrunk
                  · intro after next key val
                    rcases next.balanced with ⟨afterColor, balanced⟩
                    have redLeft := Balanced.red aKey' aVal first second
                    cases balanced with
                    | empty =>
                        rw [fixUp_of_done key val _ rfl redLeft.not_both_red]
                        exact .merged key val redLeft .empty
                    | black cKey cVal fifth sixth =>
                        rw [fixUp_of_done key val _ rfl redLeft.not_both_red]
                        exact .merged key val redLeft
                          (.black cKey cVal fifth sixth)
                    | red cKey cVal fifth sixth =>
                        rw [fixUp_of_two_red key val _ aKey' aVal cKey cVal
                          first.isRed_eq, Bool.not_not]
                        exact .kept (Two.mk key val
                          (.black aKey' aVal first second)
                          (.black cKey cVal fifth sixth))
            · cases leftThree with
              | @mk _ b aKey' aVal redLeft second =>
                  cases redLeft with
                  | @red _ e f cKey cVal fifth sixth =>
                      have less : comparator aKey' key = .lt := by
                        rw [inorderTraversal, inorderTraversal] at sorted
                        exact sorted.lt_of_left
                          (List.mem_append_right _ List.mem_cons_self)
                      have leaning := Leaning.mk key val second
                        (Balanced.red bKey bVal third fourth)
                      rw [moveRedRight_of_three]
                      refine ⟨_, _, _, _, _, _, rfl, ?_,
                        .leaning leaning notLess, ?_⟩
                      · exact Or.inl (gt_of_not_lt notLess less)
                      · intro after balanced key val
                        have leftBlack := Balanced.black cKey cVal fifth sixth
                        rw [fixUp_of_done key val color balanced.isRed_eq
                          leftBlack.not_both_red]
                        exact .kept (Two.mk key val leftBlack balanced)
      · have stays : (value key val color left right).borrowRight =
            value key val color left right := by
          cases rightThree with
          | mk bKey bVal redLeft fourth =>
              simp [FLLRBNode.borrowRight, leanRight, leftBalanced.isRed_eq,
                redLeft.isRed_eq]
        rw [stays]
        refine ⟨_, _, _, _, _, _, rfl, ?_, .three rightThree, ?_⟩
        · exact found_of_ripe notLess (Ripe.three rightThree)
            fun _ shrunk => shrunk.black
        · intro after balanced key val
          rw [fixUp_of_done key val color balanced.isRed_eq
            leftBalanced.not_both_red]
          exact .kept (Two.mk key val leftBalanced balanced)

/-! ## Removing the key -/

omit [Std.TransCmp comparator] in
theorem Ripe.shrunk_of_next (ripe : Ripe color depth self)
    {after : FLLRBNode Key Value}
    (each : ∀ Next, Removable comparator aKey Next self → Next after) :
    Shrunk color depth after := by
  cases ripe with
  | red balanced => exact Loose.shrunk (each _ (.two balanced.two))
  | three three => exact ⟨false, fun _ => rfl, each _ (.three three)⟩

omit [Std.TransCmp comparator] in
/-- On the way to a smaller key, either the left child is empty, or it is a
node that `remove` reaches. -/
theorem Removable.borrowLeft {Left : FLLRBNode Key Value → Prop}
    (removable : Removable comparator aKey Left self)
    (less : self.compareKey comparator aKey = .lt) :
    (self.borrowLeft.left = .empty ∧
      Left (self.borrowLeft.withLeft .empty).fixUp) ∨
    (∃ Next, Removable comparator aKey Next self.borrowLeft.left) ∧
      ∀ after : FLLRBNode Key Value,
        (∀ Next, Removable comparator aKey Next self.borrowLeft.left →
          Next after) →
        Left (self.borrowLeft.withLeft after).fixUp := by
  cases removable with
  | @two color depth _ two =>
      cases depth with
      | zero =>
          cases two with
          | mk key val leftBalanced rightBalanced =>
              rw [leftBalanced.eq_empty, rightBalanced.eq_empty]
              exact Or.inl ⟨rfl, .kept (Two.mk key val .empty .empty)⟩
      | succ depth =>
          have ready := two.borrowLeft
          refine Or.inr ⟨?_, ?_⟩
          · rcases ready.ripe with ripe | ripe
            · exact Removable.of_ripe ripe
            · exact Removable.of_ripe ripe
          · intro after each
            exact ready.withLeft fun color depth ripe =>
              ripe.shrunk_of_next each
  | @three depth _ three =>
      have stays := three.borrowLeft
      have leftRed : Balanced true depth self.left := by
        cases three with
        | mk key val leftBalanced _ => exact leftBalanced
      rw [stays]
      refine Or.inr ⟨⟨_, .two leftRed.two⟩, ?_⟩
      intro after each
      rcases Loose.balanced (each _ (.two leftRed.two)) with
        ⟨color, balanced⟩
      exact three.withLeft balanced
  | leaning leaning notLess => exact absurd less notLess

/-- `moveRedLeft` can only bring a larger key to the node. -/
theorem compareKey_borrowLeft
    (sorted : Sorted comparator self.inorderTraversal)
    (less : self.compareKey comparator aKey = .lt) :
    self.borrowLeft.compareKey comparator aKey = .lt := by
  rw [FLLRBNode.borrowLeft]
  split
  · cases self with
    | empty => exact less
    | value key val color left right =>
        cases right with
        | empty => exact less
        | value bKey bVal bColor c d =>
            cases c with
            | empty => exact less
            | value cKey cVal cColor e f =>
                cases cColor with
                | false => exact less
                | true =>
                    have member : (cKey, cVal) ∈ (value bKey bVal bColor
                        (value cKey cVal true e f) d).inorderTraversal :=
                      List.mem_append_left _
                        (List.mem_append_right _ List.mem_cons_self)
                    have larger : comparator key cKey = .lt :=
                      sorted.lt_of_right member
                    exact Std.TransCmp.lt_trans less larger
  · exact less

/-- On the way to the key or to a larger one, either the node is the only one
left, or it is ready for a removal from its right child. -/
theorem Removable.borrowRight {Left : FLLRBNode Key Value → Prop}
    (removable : Removable comparator aKey Left self)
    (sorted : Sorted comparator self.inorderTraversal)
    (notLess : self.compareKey comparator aKey ≠ .lt) :
    (∃ key val color,
      self.borrowRight = value key val color .empty .empty ∧
      Left .empty ∧ Left (value key val color .empty .empty)) ∨
    ∃ key val color left right Next,
      self.borrowRight = value key val color left right ∧
      RightReady comparator aKey key Next Left color left right := by
  cases removable with
  | @two color depth _ two =>
      cases depth with
      | zero =>
          cases two with
          | mk key val leftBalanced rightBalanced =>
              rw [leftBalanced.eq_empty, rightBalanced.eq_empty]
              exact Or.inl ⟨key, val, color, rfl, .gone,
                .kept (Two.mk key val .empty .empty)⟩
      | succ depth => exact Or.inr (two.borrowRight sorted notLess)
  | three three => exact Or.inr (three.borrowRight sorted notLess)
  | leaning leaning _ =>
      rw [leaning.borrowRight]
      cases leaning with
      | mk key val leftBalanced rightBalanced =>
          exact Or.inr ⟨_, _, _, _, _, _, rfl,
            Leaning.rightReady notLess leftBalanced rightBalanced⟩

theorem erase_below_left (sorted : Sorted comparator self.inorderTraversal)
    (less : self.compareKey comparator aKey = .lt)
    {after : FLLRBNode Key Value}
    (erased : after.inorderTraversal =
      SortedAssoc.erase comparator aKey self.left.inorderTraversal) :
    (self.withLeft after).fixUp.inorderTraversal =
      SortedAssoc.erase comparator aKey self.inorderTraversal := by
  cases self with
  | empty => cases less
  | value key val color left right =>
      rw [inorder_fixUp, withLeft_value, inorderTraversal, inorderTraversal,
        SortedAssoc.erase_left sorted less, erased]
      rfl

theorem head_ripe (ripe : Ripe color depth self) :
    ∃ entry rest, self.inorderTraversal = entry :: rest := by
  cases listed : self.inorderTraversal with
  | nil =>
      rw [inorder_eq_nil_iff.mp listed] at ripe
      cases ripe with
      | red balanced => cases balanced
      | three three => cases three
  | cons entry rest => exact ⟨entry, rest, rfl⟩

/-- What takes the place of an entry that was found. -/
theorem replaceByMin_of_ripe (key : Key) (val : Value)
    (ripe : Ripe color depth right) (rightColor : Bool) :
    ∃ entry,
      (value key val rightColor left right).replaceByMin =
        value entry.1 entry.2 rightColor left right.removeMin ∧
      entry :: right.removeMin.inorderTraversal =
        right.inorderTraversal := by
  rcases head_ripe ripe with ⟨entry, rest, listed⟩
  refine ⟨entry, ?_, ?_⟩
  · rw [replaceByMin, right_value, min_eq_head?, listed]
    rfl
  · rw [(removeMin_spec right ripe).2, listed]
    rfl

/-- What `remove` leaves of a node that it reaches, and of its entries. -/
theorem Removable.remove (self : FLLRBNode Key Value) :
    ∀ {Left : FLLRBNode Key Value → Prop},
      Removable comparator aKey Left self →
      Sorted comparator self.inorderTraversal →
      Left (self.remove comparator aKey) ∧
        (self.remove comparator aKey).inorderTraversal =
          SortedAssoc.erase comparator aKey self.inorderTraversal := by
  fun_induction FLLRBNode.remove comparator aKey self with
  | case1 self nonempty less n =>
      rename_i inductionHypothesis
      intro Left removable sorted
      have nLess : n.compareKey comparator aKey = .lt :=
        compareKey_borrowLeft sorted less
      have reached := removable.borrowLeft less
      change (n.left = .empty ∧ Left (n.withLeft .empty).fixUp) ∨ _ at reached
      rw [← inorder_borrowLeft self] at sorted ⊢
      change Sorted comparator n.inorderTraversal at sorted
      rcases reached with ⟨leftEmpty, left⟩ | ⟨⟨Next, next⟩, closes⟩
      · have gone : n.left.remove comparator aKey = .empty := by
          rw [leftEmpty, remove_empty]
        refine ⟨?_, erase_below_left sorted nLess ?_⟩
        · rw [gone]
          exact left
        · rw [gone, leftEmpty]
          rfl
      · have leftSorted : Sorted comparator n.left.inorderTraversal := by
          cases listed : n with
          | empty => exact List.Pairwise.nil
          | value =>
              rw [listed] at sorted
              exact sorted.of_left
        refine ⟨closes _ fun Next next =>
          (inductionHypothesis next leftSorted).1, ?_⟩
        exact erase_below_left sorted nLess
          (inductionHypothesis next leftSorted).2
  | case2 self nonempty notLess n same =>
      rename_i rightEmpty
      intro Left removable sorted
      rw [← inorder_borrowRight self]
      rcases removable.borrowRight sorted notLess with
        ⟨key, val, color, only, left, _⟩ |
        ⟨key, val, color, left, right, Next, whole, ready⟩
      · change n = _ at only
        rw [only] at same
        refine ⟨left, ?_⟩
        change _ = SortedAssoc.erase comparator aKey n.inorderTraversal
        rw [only]
        exact (@SortedAssoc.erase_same Key Value comparator [] [] (key, val)
          aKey _ (List.pairwise_singleton _ _) same).symm
      · change n = _ at whole
        rw [whole, right_value, ready.next.nonempty] at rightEmpty
        cases rightEmpty
  | case3 self nonempty notLess n same rightNonempty n' =>
      intro Left removable sorted
      rcases removable.borrowRight sorted notLess with
        ⟨key, val, color, only, left, _⟩ |
        ⟨key, val, color, left, right, Next, whole, ready⟩
      · change n = _ at only
        rw [only] at rightNonempty
        cases rightNonempty rfl
      · change n = _ at whole
        rw [← inorder_borrowRight self] at sorted ⊢
        change Sorted comparator n.inorderTraversal at sorted
        change _ ∧ _ = SortedAssoc.erase comparator aKey n.inorderTraversal
        rw [whole] at same sorted ⊢
        rcases ready.found with greater | ⟨_, _, _, ripe, leaves⟩
        · cases same.symm.trans greater
        · rcases replaceByMin_of_ripe key val ripe color with
            ⟨entry, replaced, entries⟩
          have replaced' : n' = value entry.1 entry.2 color left
              right.removeMin := by
            rw [← replaced, ← whole]
          have larger : ∀ other ∈ right.removeMin.inorderTraversal,
              comparator aKey other.1 = .lt := by
            intro other member
            have inRight : other ∈ right.inorderTraversal := by
              rw [← entries]
              exact List.mem_cons_of_mem _ member
            rw [Std.TransCmp.congr_left same]
            exact sorted.lt_of_right inRight
          have shrunk := (removeMin_spec right ripe).1
          rw [replaced']
          constructor
          · exact ready.closes _ (leaves _ (shrunk.remove_smaller larger))
              entry.1 entry.2
          · have kept := (Balanced.remove_smaller _ larger).1
            rw [inorder_fixUp, inorderTraversal]
            refine Eq.trans ?_ (SortedAssoc.erase_same sorted same).symm
            rw [← entries]
            change left.inorderTraversal ++ entry ::
              (right.removeMin.remove comparator aKey).inorderTraversal = _
            rw [kept]
  | case4 self nonempty notLess n different =>
      rename_i inductionHypothesis
      intro Left removable sorted
      rcases removable.borrowRight sorted notLess with
        ⟨key, val, color, only, _, left⟩ |
        ⟨key, val, color, left, right, Next, whole, ready⟩
      · change n = _ at only
        have stays : (n.withRight (n.right.remove comparator aKey)).fixUp =
            n := by
          rw [only, right_value, remove_empty]
          exact fixUp_of_done key val color rfl rfl
        rw [stays, ← inorder_borrowRight self]
        refine ⟨by rw [only]; exact left, ?_⟩
        change n.inorderTraversal = SortedAssoc.erase comparator aKey
          n.inorderTraversal
        rw [only] at different ⊢
        refine (SortedAssoc.erase_absent ?_).symm
        intro other member
        rw [List.mem_singleton.mp member]
        exact different
      · change n = _ at whole
        rw [← inorder_borrowRight self] at sorted ⊢
        change Sorted comparator n.inorderTraversal at sorted
        change _ ∧ _ = SortedAssoc.erase comparator aKey n.inorderTraversal
        rw [whole] at inductionHypothesis different sorted ⊢
        rcases ready.found with greater | ⟨same, _⟩
        · rcases inductionHypothesis ready.next sorted.of_right with
            ⟨next, erased⟩
          refine ⟨ready.closes _ next key val, ?_⟩
          rw [inorder_fixUp]
          refine Eq.trans ?_ (SortedAssoc.erase_right sorted greater).symm
          exact congrArg (fun entries =>
            left.inorderTraversal ++ (key, val) :: entries) erased
        · exact absurd same different
  | case5 self isEmpty =>
      intro Left removable
      rw [removable.nonempty] at isEmpty
      cases isEmpty rfl

end FLLRBNode

end Firebase
end PocketChef
