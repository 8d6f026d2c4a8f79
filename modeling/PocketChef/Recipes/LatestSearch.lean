import PocketChef.Library.InFlight
import PocketChef.Library.Reactive
import PocketChef.Network.RecipeLoaders
import PocketChef.Network.SearchRequest

/-!
# Which search the results belong to

The search screen issues a request for its keyword and one more for each query
typed later.  Every reply appends its recipes to the same two arrays and then
shows the first recipe of the array, so after a second query the arrays hold
the recipes of all replies.
-/

namespace PocketChef
namespace SearchResultsViewController

open Reactive

/-- A search that can be issued, with the reply that it will get: a top-level
object whose `results` has a recipe that can be read. -/
structure Search where
  keyword : String
  issuable : (searchURL keyword).isSome = true
  reply : Reply
  recipes : List AnyJson
  delivers :
    ∃ members, reply.Delivers (.ok (.object members)) ∧
      AnyJson.field Json.asArray members "results" = some recipes
  valid : ∃ item ∈ recipes, WellFormedRecipe item

/-- The views of the large picture and the two labels show the first
recipe. -/
def ShowsFirst (screen : SearchResultsViewController)
    (recipes : List RecipeCard) : Prop :=
  ∃ card ∈ recipes.head?, screen.largePhoto = some card.image ∧
    screen.highlightName = card.title ∧ screen.dishTypeLabel = card.type

instance (screen : SearchResultsViewController) :
    DecidablePred screen.ShowsFirst := fun recipes =>
  inferInstanceAs <| Decidable <|
    ∃ card ∈ recipes.head?, screen.largePhoto = some card.image ∧
      screen.highlightName = card.title ∧ screen.dishTypeLabel = card.type

structure Searching where
  screen : SearchResultsViewController := {}
  placeholder : Option String := none
  flight : InFlight Search

/-- `searchTapped` comes with the text of the field and, where that is a
query, with the search issued for it. -/
inductive SearchEvent where
  | searchTapped (search : Option Search)
  | replyArrives (position : Nat)

namespace Searching

/-- The screen has opened with a keyword. -/
def start (search : Search) : Searching :=
  { flight := .first search }

def machine (fetch : String → Option UIImage) :
    Machine Searching SearchEvent where
  enabled
    | _, .searchTapped _ => True
    | searching, .replyArrives position =>
        position < searching.flight.waiting.length
  step
    | searching, .searchTapped none =>
        some { searching with
          placeholder := some "Enter a new keyword to search" }
    | searching, .searchTapped (some search) =>
        some { searching with flight := searching.flight.issue search }
    | searching, .replyArrives position => do
        let answered ← searching.flight.answer position
        let screen ←
          (searchResultsLoader fetch).handle searching.screen answered.1.reply
        some { searching with screen := screen, flight := answered.2 }

instance (fetch : String → Option UIImage) (searching : Searching) :
    DecidablePred ((machine fetch).enabled searching)
  | .searchTapped _ => inferInstanceAs (Decidable True)
  | .replyArrives _ => inferInstanceAs (Decidable (_ < _))

end Searching

/-- The query that the event issues a search for. -/
def SearchEvent.issues : SearchEvent → Option Search
  | .searchTapped search => search
  | .replyArrives _ => none

section Replies

variable (fetch : String → Option UIImage)

/-- The valid recipes of the reply, each with its image URL. -/
def Search.cards (search : Search) : List (RecipeCard × String) :=
  cardsOf fetch search.recipes

theorem Search.cards_ne_nil (search : Search) : search.cards fetch ≠ [] := by
  intro nothing
  rcases search.valid with ⟨item, member, wellFormed⟩
  exact (cardsOf_eq_nil_iff fetch _).mp nothing item member wellFormed

/-- The arrays grow by the recipes of the reply, and the first recipe of the
array is shown. -/
theorem exists_handle_search (screen : SearchResultsViewController)
    (search : Search) :
    ∃ next, (searchResultsLoader fetch).handle screen search.reply =
        some next ∧
      next.returnedRecipes =
        screen.returnedRecipes ++ (search.cards fetch).map Prod.fst ∧
      next.urlArray = screen.urlArray ++ (search.cards fetch).map Prod.snd ∧
      next.ShowsFirst next.returnedRecipes := by
  rcases search.delivers with ⟨members, delivers, found⟩
  have handled :=
    @handle_of_entries fetch _ _ search.recipes screen delivers found
  rw [loadSearchResults, appendResults_eq] at handled
  have nonempty :
      screen.returnedRecipes ++ (search.cards fetch).map Prod.fst ≠ [] := by
    simp [Search.cards_ne_nil]
  rcases List.exists_cons_of_ne_nil nonempty with ⟨card, others, listed⟩
  refine ⟨_, handled.trans (highlight_of_cons listed), rfl, rfl, card, ?_,
    rfl, rfl, rfl⟩
  exact congrArg List.head? listed

end Replies

/-! ## One event -/

namespace Searching

/-- The arrays hold the recipes of the replies in the order in which they
arrived, and the first of them is shown. -/
structure Gathered (fetch : String → Option UIImage)
    (searching : Searching) : Prop where
  recipes :
    searching.screen.returnedRecipes =
      (searching.flight.answered.flatMap (Search.cards fetch)).map Prod.fst
  urls :
    searching.screen.urlArray =
      (searching.flight.answered.flatMap (Search.cards fetch)).map Prod.snd
  shown :
    searching.flight.answered ≠ [] →
      searching.screen.ShowsFirst searching.screen.returnedRecipes

variable {fetch : String → Option UIImage}

theorem advance_gathered (searching : Searching) (event : SearchEvent)
    (gathered : searching.Gathered fetch)
    (enabled : (machine fetch).enabled searching event) :
    ∃ next ∈ (machine fetch).step searching event, next.Gathered fetch := by
  cases event with
  | searchTapped search =>
      cases search with
      | none =>
          exact ⟨_, rfl, gathered.recipes, gathered.urls, gathered.shown⟩
      | some search =>
          exact ⟨_, rfl, gathered.recipes, gathered.urls, gathered.shown⟩
  | replyArrives position =>
      rcases searching.flight.exists_answer enabled with
        ⟨search, flight, answered, _, arrived⟩
      rcases exists_handle_search fetch searching.screen search with
        ⟨screen, handled, recipes, urls, shown⟩
      have performed :
          (machine fetch).step searching (.replyArrives position) =
            some { searching with screen := screen, flight := flight } := by
        change (searching.flight.answer position).bind _ = _
        rw [answered]
        change ((searchResultsLoader fetch).handle _ _).bind _ = _
        rw [handled]
        rfl
      refine ⟨_, performed, ?_, ?_, fun _ => shown⟩
      · simp [recipes, gathered.recipes, arrived]
      · simp [urls, gathered.urls, arrived]

/-! ## Whole runs -/

/-- The searches are issued in the order of the events. -/
theorem issued_of_run {searching final : Searching}
    {events : List SearchEvent}
    (reached : (machine fetch).run searching events = some final) :
    final.flight.issued =
      searching.flight.issued ++ events.filterMap SearchEvent.issues := by
  induction events generalizing searching with
  | nil =>
      cases reached
      simp
  | cons event rest inductionHypothesis =>
      rcases Option.bind_eq_some_iff.mp reached with
        ⟨next, handled, remaining⟩
      have tail := inductionHypothesis remaining
      cases event with
      | searchTapped search =>
          cases search with
          | none =>
              cases handled
              exact tail
          | some search =>
              cases handled
              simpa [SearchEvent.issues, InFlight.issue] using tail
      | replyArrives position =>
          rcases Option.bind_eq_some_iff.mp handled with
            ⟨answered, found, rest⟩
          rcases Option.bind_eq_some_iff.mp rest with ⟨screen, _, same⟩
          cases same
          rw [tail]
          exact congrArg (· ++ _) (InFlight.issued_answer found)

/-- The arrays hold exactly the recipes of the last search issued, and the
views show the first of them. -/
def ShowsLatest (fetch : String → Option UIImage)
    (searching : Searching) : Prop :=
  ∃ search ∈ searching.flight.issued.getLast?,
    searching.screen.returnedRecipes =
        (search.cards fetch).map Prod.fst ∧
      searching.screen.urlArray = (search.cards fetch).map Prod.snd ∧
      searching.screen.ShowsFirst ((search.cards fetch).map Prod.fst)

instance (fetch : String → Option UIImage) :
    DecidablePred (ShowsLatest fetch) := fun searching =>
  inferInstanceAs <| Decidable <|
    ∃ search ∈ searching.flight.issued.getLast?,
      searching.screen.returnedRecipes =
          (search.cards fetch).map Prod.fst ∧
        searching.screen.urlArray = (search.cards fetch).map Prod.snd ∧
        searching.screen.ShowsFirst ((search.cards fetch).map Prod.fst)

theorem showsLatest_iff_of_gathered {searching : Searching}
    {first : Search} {more : List Search}
    (gathered : searching.Gathered fetch)
    (settled : searching.flight.waiting = [])
    (issued : searching.flight.issued = first :: more) :
    searching.ShowsLatest fetch ↔ more = [] := by
  constructor
  · intro latest
    rcases latest with ⟨search, last, recipes, _, _⟩
    rcases List.getLast?_eq_some_iff.mp last with ⟨before, split⟩
    -- every other reply would have left a recipe too
    have size := congrArg List.length (gathered.recipes.symm.trans recipes)
    rw [List.length_map, List.length_map] at size
    have single : before = [] :=
      (searching.flight.flatMap_answered_length_eq_iff settled _
        (Search.cards_ne_nil fetch) split).mp size
    rw [single, issued] at split
    exact (List.cons.inj split).2
  · intro single
    subst single
    have answered : searching.flight.answered = [first] := by
      have arrived := searching.flight.answered_perm settled
      rw [issued] at arrived
      exact List.perm_singleton.mp arrived
    have recipes := gathered.recipes
    have urls := gathered.urls
    have shown := gathered.shown (by simp [answered])
    rw [answered, List.flatMap_singleton] at recipes urls
    rw [recipes] at shown
    exact ⟨first, by rw [issued]; rfl, recipes, urls, shown⟩

/-- Once all replies to the searches that could be issued have arrived, the
screen shows the last search exactly when no query was issued after the first
one.  No reply traps. -/
theorem showsLatest_iff (fetch : String → Option UIImage) (search : Search)
    (events : List SearchEvent)
    (legal : (machine fetch).Legal (start search) events) :
    ∃ final, (machine fetch).run (start search) events = some final ∧
      (final.flight.waiting = [] →
        (final.ShowsLatest fetch ↔
          ∀ event ∈ events, event.issues = none)) := by
  have opened : (start search).Gathered fetch :=
    ⟨rfl, rfl, fun answered => absurd rfl answered⟩
  rcases (Machine.always_of_advance advance_gathered opened legal).reached with
    ⟨final, reached, gathered⟩
  refine ⟨final, reached, ?_⟩
  intro settled
  have issued : final.flight.issued =
      search :: events.filterMap SearchEvent.issues :=
    issued_of_run reached
  rw [showsLatest_iff_of_gathered gathered settled issued,
    List.filterMap_eq_nil_iff]

/-- A search for a dish whose reply has one recipe. -/
def searchFor (dish : String)
    (issuable : (searchURL dish).isSome = true) : Search where
  keyword := dish
  issuable := issuable
  reply :=
    { data := some (.ok (.object [("results", .array [recipeOf dish])]))
      statusCode := some 200 }
  recipes := [recipeOf dish]
  delivers := ⟨_, ⟨rfl, rfl, rfl⟩, rfl⟩
  valid :=
    ⟨_, List.mem_singleton_self _, _, rfl, ⟨1, rfl⟩, ⟨dish, rfl⟩, _, rfl⟩

def pasta : Search :=
  searchFor "pasta" (by decide +kernel)

def soup : Search :=
  searchFor "soup" (by decide +kernel)

theorem showsLatest_of_one_search :
    ∃ final,
      (machine fun _ => none).run (start pasta)
          [.searchTapped none, .replyArrives 0] = some final ∧
        (final.flight.waiting = [] →
          (final.ShowsLatest (fun _ => none) ↔
            ∀ event ∈ [SearchEvent.searchTapped none, .replyArrives 0],
              event.issues = none)) :=
  showsLatest_iff (fun _ => none) pasta _ (by decide)

/-- A query after the reply to the first one. -/
def secondQuery : List SearchEvent :=
  [.replyArrives 0, .searchTapped (some soup),
    .replyArrives 0]

theorem not_showsLatest :
    (machine fun _ => none).Legal (start pasta) secondQuery ∧
      ∃ final ∈
          (machine fun _ => none).run (start pasta) secondQuery,
        final.flight.waiting = [] ∧ ¬ final.ShowsLatest fun _ => none := by
  decide

end Searching
end SearchResultsViewController
end PocketChef
