import PocketChef.Library.Reactive
import PocketChef.Network.RecipeLoaders

/-!
# The parallel arrays of the search screen

The handlers of several replies may run at the same time, each in the middle
of its loop, while blocks wait on the main queue and the user taps items of
the carousel.  An iteration of a loop is one event.

An iteration appends to both arrays or to none of them, so that the card and
the URL at one position always come from the same element of a reply.
-/

namespace PocketChef
namespace SearchResultsViewController

open Reactive

/-- One iteration of the loop of `loadSearchResults`. -/
def appendEntry (fetch : String → Option UIImage)
    (self : SearchResultsViewController) (item : AnyJson) :
    Option SearchResultsViewController := do
  match ← recipeCard fetch item with
  | none => some self
  | some (card, imageURL) =>
      some { self with
        returnedRecipes := self.returnedRecipes ++ [card]
        urlArray := self.urlArray ++ [imageURL] }

/-- The guards before the loop: nothing after an early return, otherwise the
elements that the loop goes through. -/
def elementsOf (reply : Reply) : Option (Handled PUnit (List AnyJson)) :=
  completion ⟨⟩ reply (fun body => some (entriesOf "results" body))
    fun recipes => some ⟨⟨⟩, some recipes⟩

/-- `running` has the elements that each running handler has not come to yet,
and `sources` the element that each card was built from. -/
structure Arrays where
  screen : SearchResultsViewController := {}
  running : List (List AnyJson) := []
  blocks : Nat := 0
  sources : List AnyJson := []

inductive ArrayEvent where
  | replyArrives (reply : Reply)
  | resume (handler : Nat)
  | mainBlock
  | didSelectItemAt (item : Nat)

namespace Arrays

/-- A handler that resumes goes through its loop once more or, after the last
element, leaves its block on the main queue. -/
def resume (fetch : String → Option UIImage) (arrays : Arrays)
    (handler : Nat) : Option Arrays :=
  match arrays.running[handler]? with
  | none => none
  | some [] =>
      some { arrays with
        running := arrays.running.eraseIdx handler
        blocks := arrays.blocks + 1 }
  | some (item :: rest) => do
      let screen ← arrays.screen.appendEntry fetch item
      some { arrays with
        screen := screen
        running := arrays.running.set handler rest
        sources :=
          if WellFormedRecipe item then arrays.sources ++ [item]
          else arrays.sources }

/-- The carousel has an item for each card. -/
def machine (fetch : String → Option UIImage) :
    Machine Arrays ArrayEvent where
  enabled
    | _, .replyArrives _ => True
    | arrays, .resume handler => handler < arrays.running.length
    | arrays, .mainBlock => 0 < arrays.blocks
    | arrays, .didSelectItemAt item =>
        item < arrays.screen.returnedRecipes.length
  step
    | arrays, .replyArrives reply => do
        let guarded ← elementsOf reply
        some { arrays with
          running := arrays.running ++ guarded.block.toList }
    | arrays, .resume handler => arrays.resume fetch handler
    | arrays, .mainBlock => do
        let screen ← arrays.screen.highlight 0
        some { arrays with screen := screen, blocks := arrays.blocks - 1 }
    | arrays, .didSelectItemAt item => do
        let screen ← arrays.screen.didSelectItemAt item
        some { arrays with screen := screen }

instance (fetch : String → Option UIImage) (arrays : Arrays) :
    DecidablePred ((machine fetch).enabled arrays)
  | .replyArrives _ => inferInstanceAs (Decidable True)
  | .resume _ => inferInstanceAs (Decidable (_ < _))
  | .mainBlock => inferInstanceAs (Decidable (_ < _))
  | .didSelectItemAt _ => inferInstanceAs (Decidable (_ < _))

end Arrays

/-- The card has the id and the title of the element, and the URL is its
image. -/
def BuiltFrom (item : AnyJson) (card : RecipeCard) (url : String) : Prop :=
  ∃ recipe, item = .object recipe ∧
    AnyJson.field AnyJson.asInt recipe "id" = some card.id ∧
    AnyJson.field Json.asString recipe "title" = some card.title ∧
    AnyJson.field Json.asString recipe "image" = some url

namespace Arrays

/-- The two arrays are as long as the list of sources, the entries at each
position come from the source there, and the selected index is valid unless
it still is zero. -/
structure Aligned (arrays : Arrays) : Prop where
  counts :
    arrays.screen.returnedRecipes.length = arrays.screen.urlArray.length
  sourced :
    arrays.sources.length = arrays.screen.returnedRecipes.length
  entries :
    ∀ (index : Nat) (item : AnyJson), arrays.sources[index]? = some item →
      ∃ card url, arrays.screen.returnedRecipes[index]? = some card ∧
        arrays.screen.urlArray[index]? = some url ∧ BuiltFrom item card url
  selected :
    arrays.screen.selectedIndex = 0 ∨
      arrays.screen.selectedIndex < arrays.screen.returnedRecipes.length

/-- What stands in the arrays stays where it is. -/
def Extends (before after : Arrays) : Prop :=
  before.screen.returnedRecipes <+: after.screen.returnedRecipes ∧
    before.screen.urlArray <+: after.screen.urlArray

end Arrays

section Iterations

variable {fetch : String → Option UIImage}
variable (self : SearchResultsViewController) {item : AnyJson}

theorem appendEntries_cons (rest : List AnyJson) :
    self.appendEntries fetch (item :: rest) =
      (self.appendEntry fetch item).bind fun next =>
        next.appendEntries fetch rest :=
  rfl

theorem appendEntry_of_malformed (malformed : ¬ WellFormedRecipe item) :
    self.appendEntry fetch item = some self := by
  rw [← decodeRecipe_isSome_iff fetch, Option.not_isSome_iff_eq_none]
    at malformed
  rw [appendEntry, recipeCard_eq, malformed]
  rfl

theorem decodeRecipe_of_wellFormed (wellFormed : WellFormedRecipe item) :
    ∃ card url, decodeRecipe fetch (RecipeEntry.ofAny item) =
        some (card, url) ∧
      BuiltFrom item card url := by
  rcases wellFormed with
    ⟨recipe, rfl, ⟨id, idCast⟩, ⟨title, titleCast⟩, imageURL, urlCast⟩
  unfold decodeRecipe RecipeEntry.ofAny
  simp only [Json.asObject, idCast, titleCast, urlCast,
    Option.bind_eq_bind, Option.bind_some]
  split
  · exact ⟨_, imageURL, rfl, recipe, rfl, idCast, titleCast, urlCast⟩
  · exact ⟨_, imageURL, rfl, recipe, rfl, idCast, titleCast, urlCast⟩

theorem exists_appendEntry (wellFormed : WellFormedRecipe item) :
    ∃ card url,
      self.appendEntry fetch item =
          some { self with
            returnedRecipes := self.returnedRecipes ++ [card]
            urlArray := self.urlArray ++ [url] } ∧
        BuiltFrom item card url := by
  rcases @decodeRecipe_of_wellFormed fetch item wellFormed with
    ⟨card, url, decoded, built⟩
  refine ⟨card, url, ?_, built⟩
  rw [appendEntry, recipeCard_eq, decoded]
  rfl

end Iterations

/-! ## A handler that runs alone -/

section Alone

variable {fetch : String → Option UIImage} {reply : Reply}

theorem completionHandler_eq (self : SearchResultsViewController) :
    (searchResultsLoader fetch).completionHandler self reply =
      (elementsOf reply).bind fun guarded =>
        match guarded.block with
        | none => some ⟨self, none⟩
        | some recipes =>
            (self.appendEntries fetch recipes).map fun next =>
              ⟨next, some ⟨⟩⟩ := by
  by_cases arrives : ∃ body, reply.Delivers body
  · rcases arrives with ⟨body, delivers⟩
    cases found : entriesOf "results" body with
    | none =>
        have returned := congrArg some found
        rw [elementsOf, completion_of_return delivers returned]
        exact completion_of_return delivers returned
    | some recipes =>
        have present := congrArg some found
        rw [elementsOf, completion_of_entries delivers present]
        refine (completion_of_entries delivers present).trans ?_
        simp only [Option.bind_some, appendEntries_eq]
        rfl
  · have nothing := not_exists.mp arrives
    rw [elementsOf, completion_of_not_delivers nothing]
    exact completion_of_not_delivers nothing

theorem exists_next (self : SearchResultsViewController) (item : AnyJson) :
    ∃ next, self.appendEntry fetch item = some next := by
  rw [appendEntry, recipeCard_eq]
  cases decodeRecipe fetch (RecipeEntry.ofAny item) with
  | none => exact ⟨self, rfl⟩
  | some built => exact ⟨_, rfl⟩

/-- A handler that is resumed until it has left its block, with no other
running, has gone through the loop of `loadSearchResults`. -/
theorem run_resume (entries : List AnyJson) (arrays : Arrays)
    (alone : arrays.running = [entries]) :
    (Arrays.machine fetch).run arrays
        (List.replicate (entries.length + 1) (.resume 0)) =
      (arrays.screen.appendEntries fetch entries).map fun screen =>
        { screen := screen
          running := []
          blocks := arrays.blocks + 1
          sources := arrays.sources ++ entries.filter WellFormedRecipe } := by
  rcases arrays with ⟨screen, running, blocks, sources⟩
  cases alone
  induction entries generalizing screen sources with
  | nil =>
      rw [List.filter_nil, List.append_nil]
      rfl
  | cons item rest inductionHypothesis =>
      rw [List.length_cons, List.replicate_succ, Machine.run,
        appendEntries_cons]
      rcases @exists_next fetch screen item with ⟨next, appended⟩
      have step :
          (Arrays.machine fetch).step ⟨screen, [item :: rest], blocks,
              sources⟩ (.resume 0) =
            some ⟨next, [rest], blocks,
              if WellFormedRecipe item then sources ++ [item]
              else sources⟩ := by
        simp only [Arrays.machine, Arrays.resume, List.getElem?_cons_zero,
          appended]
        rfl
      rw [step, appended, Option.bind_some, Option.bind_some,
        inductionHypothesis]
      by_cases wellFormed : WellFormedRecipe item
      · simp [wellFormed]
      · simp [wellFormed]

/-- The events of a reply whose handler runs alone do what its completion
handler does in one piece. -/
theorem run_alone {arrays : Arrays}
    {handled : Handled SearchResultsViewController PUnit}
    (alone : arrays.running = [])
    (finished :
      (searchResultsLoader fetch).completionHandler arrays.screen reply =
        some handled) :
    ∃ steps sources,
      (Arrays.machine fetch).run arrays
          (.replyArrives reply :: List.replicate steps (.resume 0)) =
        some
          { screen := handled.screen
            running := []
            blocks := arrays.blocks + handled.block.toList.length
            sources := sources } := by
  rw [completionHandler_eq] at finished
  rcases Option.bind_eq_some_iff.mp finished with ⟨guarded, guards, rest⟩
  have arrives :
      (Arrays.machine fetch).step arrays (.replyArrives reply) =
        some { arrays with running := guarded.block.toList } := by
    simp only [Arrays.machine, guards, alone]
    rfl
  cases block : guarded.block with
  | none =>
      rw [block] at rest arrives
      cases rest
      refine ⟨0, arrays.sources, ?_⟩
      rw [Machine.run, arrives]
      rfl
  | some recipes =>
      rw [block] at rest arrives
      rcases Option.map_eq_some_iff.mp rest with ⟨next, looped, same⟩
      cases same
      refine ⟨recipes.length + 1,
        arrays.sources ++ recipes.filter WellFormedRecipe, ?_⟩
      rw [Machine.run, arrives, Option.bind_some, run_resume recipes _ rfl,
        looped]
      rfl

end Alone

/-! ## One event -/

namespace Arrays

variable {fetch : String → Option UIImage}

theorem Extends.refl (arrays : Arrays) : arrays.Extends arrays :=
  ⟨List.prefix_refl _, List.prefix_refl _⟩

theorem Extends.trans (first second third : Arrays)
    (before : first.Extends second) (after : second.Extends third) :
    first.Extends third :=
  ⟨before.1.trans after.1, before.2.trans after.2⟩

/-- Events that do not touch the arrays. -/
theorem Aligned.of_same {before after : Arrays} (aligned : before.Aligned)
    (recipes :
      after.screen.returnedRecipes = before.screen.returnedRecipes)
    (urls : after.screen.urlArray = before.screen.urlArray)
    (sources : after.sources = before.sources)
    (selected :
      after.screen.selectedIndex = 0 ∨
        after.screen.selectedIndex < before.screen.returnedRecipes.length) :
    after.Aligned where
  counts := by
    rw [recipes, urls]
    exact aligned.counts
  sourced := by
    rw [recipes, sources]
    exact aligned.sourced
  entries := by
    rw [recipes, urls, sources]
    exact aligned.entries
  selected := by
    rw [recipes]
    exact selected

/-- An iteration that appends to both arrays. -/
theorem Aligned.append {before : Arrays} (aligned : before.Aligned)
    {item : AnyJson} {card : RecipeCard} {url : String}
    (built : BuiltFrom item card url) (running : List (List AnyJson)) :
    Aligned
      { before with
        screen :=
          { before.screen with
            returnedRecipes := before.screen.returnedRecipes ++ [card]
            urlArray := before.screen.urlArray ++ [url] }
        running := running
        sources := before.sources ++ [item] } where
  counts := by
    simp only [List.length_append, aligned.counts]
    rfl
  sourced := by
    simp only [List.length_append, aligned.sourced]
    rfl
  entries := by
    intro index other found
    by_cases old : index < before.sources.length
    · rw [List.getElem?_append_left old] at found
      rcases aligned.entries index other found with
        ⟨card', url', atCards, atURLs, described⟩
      have inCards := (List.getElem?_eq_some_iff.mp atCards).1
      have inURLs := (List.getElem?_eq_some_iff.mp atURLs).1
      refine ⟨card', url', ?_, ?_, described⟩
      · rw [List.getElem?_append_left inCards]
        exact atCards
      · rw [List.getElem?_append_left inURLs]
        exact atURLs
    · have last : index = before.sources.length := by
        have inRange := (List.getElem?_eq_some_iff.mp found).1
        rw [List.length_append, List.length_singleton] at inRange
        omega
      subst last
      rw [List.getElem?_concat_length] at found
      cases found
      refine ⟨card, url, ?_, ?_, built⟩
      · rw [aligned.sourced, List.getElem?_concat_length]
      · rw [aligned.sourced, aligned.counts, List.getElem?_concat_length]
  selected := by
    dsimp only
    rw [List.length_append, List.length_singleton]
    have before := aligned.selected
    omega

theorem keeps_resume {before after : Arrays} {handler : Nat}
    (aligned : before.Aligned)
    (resumed : before.resume fetch handler = some after) :
    after.Aligned ∧ before.Extends after := by
  unfold resume at resumed
  split at resumed
  · cases resumed
  · cases resumed
    exact ⟨aligned.of_same rfl rfl rfl aligned.selected, Extends.refl before⟩
  · rename_i item rest _
    by_cases wellFormed : WellFormedRecipe item
    · rcases @exists_appendEntry fetch before.screen item wellFormed with
        ⟨card, url, appended, built⟩
      simp only [appended, if_pos wellFormed, Option.bind_eq_bind,
        Option.bind_some] at resumed
      cases resumed
      exact ⟨aligned.append built _,
        List.prefix_append _ [card], List.prefix_append _ [url]⟩
    · simp only [appendEntry_of_malformed before.screen wellFormed,
        if_neg wellFormed, Option.bind_eq_bind, Option.bind_some] at resumed
      cases resumed
      exact ⟨aligned.of_same rfl rfl rfl aligned.selected,
        Extends.refl before⟩

theorem keeps_aligned (before : Arrays) (event : ArrayEvent)
    (after : Arrays) (aligned : before.Aligned)
    (enabled : (machine fetch).enabled before event)
    (handled : (machine fetch).step before event = some after) :
    after.Aligned ∧ before.Extends after := by
  cases event with
  | replyArrives reply =>
      rcases Option.bind_eq_some_iff.mp handled with ⟨guarded, _, same⟩
      cases same
      exact ⟨aligned.of_same rfl rfl rfl aligned.selected,
        Extends.refl before⟩
  | resume handler =>
      exact keeps_resume aligned handled
  | mainBlock =>
      rcases Option.bind_eq_some_iff.mp handled with ⟨screen, shown, same⟩
      cases same
      rcases highlight_arrays shown with ⟨recipes, urls, selected⟩
      refine ⟨aligned.of_same recipes urls rfl ?_, ?_, ?_⟩
      · rw [selected]
        exact aligned.selected
      · rw [recipes]
      · rw [urls]
  | didSelectItemAt item =>
      rcases Option.bind_eq_some_iff.mp handled with ⟨screen, noted, same⟩
      cases same
      rcases Option.bind_eq_some_iff.mp noted with ⟨shown, lit, same⟩
      cases same
      rcases highlight_arrays lit with ⟨recipes, urls, _⟩
      refine ⟨aligned.of_same recipes urls rfl (Or.inr enabled), ?_, ?_⟩
      · dsimp only
        rw [recipes]
      · dsimp only
        rw [urls]

/-! ## Whole runs -/

theorem aligned_start : Aligned {} where
  counts := rfl
  sourced := rfl
  entries := by
    intro index item found
    cases found
  selected := Or.inl rfl

/-- With a card in the array, the segue reads both arrays in range. -/
theorem Aligned.exists_prepare {arrays : Arrays} (aligned : arrays.Aligned)
    (nonempty : arrays.screen.returnedRecipes ≠ []) :
    arrays.screen.selectedIndex < arrays.screen.returnedRecipes.length ∧
      ∃ card url,
        arrays.screen.returnedRecipes[arrays.screen.selectedIndex]? =
            some card ∧
          arrays.screen.urlArray[arrays.screen.selectedIndex]? = some url ∧
          arrays.screen.prepare =
            some { displayingRecipe := card, photoURL := url } := by
  have positive := List.length_pos_of_ne_nil nonempty
  have inRange :
      arrays.screen.selectedIndex <
        arrays.screen.returnedRecipes.length := by
    have selected := aligned.selected
    omega
  have inURLs :
      arrays.screen.selectedIndex < arrays.screen.urlArray.length := by
    rw [← aligned.counts]
    exact inRange
  have atCards := List.getElem?_eq_getElem inRange
  have atURLs := List.getElem?_eq_getElem inURLs
  refine ⟨inRange, _, _, atCards, atURLs, ?_⟩
  rw [prepare, SwiftArray.get_natCast, SwiftArray.get_natCast, atCards,
    atURLs]
  rfl

/-- In every state that replies, their loops and taps lead to, the arrays are
aligned, whatever comes later leaves their entries where they are, and the
segue finds a card and its URL as soon as there is one. -/
theorem arrays_aligned (fetch : String → Option UIImage)
    (events later : List ArrayEvent) (reached final : Arrays)
    (legal : (machine fetch).Legal {} (events ++ later))
    (arrived : (machine fetch).run {} events = some reached)
    (continued : (machine fetch).run reached later = some final) :
    reached.Aligned ∧ reached.Extends final ∧
      (reached.screen.returnedRecipes ≠ [] →
        reached.screen.selectedIndex <
            reached.screen.returnedRecipes.length ∧
          ∃ card url,
            reached.screen.returnedRecipes[
                reached.screen.selectedIndex]? = some card ∧
              reached.screen.urlArray[reached.screen.selectedIndex]? =
                some url ∧
              reached.screen.prepare =
                some { displayingRecipe := card, photoURL := url }) := by
  have keeps :
      ∀ before event after, before.Aligned →
        (machine fetch).enabled before event →
          (machine fetch).step before event = some after → after.Aligned :=
    fun before event after aligned enabled handled =>
      (keeps_aligned before event after aligned enabled handled).1
  have aligned : reached.Aligned :=
    Machine.invariant_of_run keeps aligned_start legal.left arrived
  refine ⟨aligned, ?_, aligned.exists_prepare⟩
  exact Machine.related_of_run keeps Extends.refl Extends.trans
    (fun before event after aligned enabled handled =>
      (keeps_aligned before event after aligned enabled handled).2)
    aligned (legal.right arrived) continued

/-- A reply with one malformed and one valid recipe, whose block runs before
the user taps the item; an answer without results follows. -/
def oneValid : List ArrayEvent :=
  [.replyArrives
      { data := some (.ok (.object
          [("results", .array [.null, recipeOf "soup"])]))
        statusCode := some 200 },
    .resume 0, .resume 0, .resume 0, .mainBlock, .didSelectItemAt 0]

def refused : List ArrayEvent :=
  [.replyArrives { statusCode := some 402 }]

theorem arrays_aligned_oneValid :
    ∃ reached, (machine fun _ => none).run {} oneValid = some reached ∧
      reached.Aligned ∧ reached.screen.urlArray = ["dish.jpg"] :=
  ⟨_, rfl,
    (arrays_aligned (fun _ => none) oneValid refused _ _ (by decide) rfl
      rfl).1, rfl⟩

end Arrays

end SearchResultsViewController
end PocketChef
