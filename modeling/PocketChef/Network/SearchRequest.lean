import PocketChef.Library.UrlQuery
import PocketChef.Recipes.ListScreens

/-!
# The request of a search

The search bar of the home screen and the search field pass their text on
unchanged, and it is put into the URL as it is.  It arrives as the value of
the parameter `query` unless one of its characters has no place in a URL,
where the unwrapping of `NSURL(string:)` traps, or means something there.
-/

namespace PocketChef
namespace SearchResultsViewController

open UrlQuery

def apiKey : String :=
  "56113b8493f8442dae66892e54246bfa"

/-- The string that `loadSearchResults` makes a URL of. -/
def urlString (keywords : String) : String :=
  "https://api.spoonacular.com/recipes/complexSearch?query=" ++ keywords ++
    "&addRecipeInformation=true&apiKey=" ++ apiKey

/-- `NSURL(string:)`, which is `nil` for a string with a character that no URL
contains, or with an incomplete escape. -/
def nsURL (string : String) : Option (List Char) :=
  if string.toList.all isAllowed && (percentBytes string.toList).isSome then
    some string.toList
  else
    none

/-- The URL of the request; `none` is the trap of the unwrapping. -/
def searchURL (keywords : String) : Option (List Char) :=
  nsURL (urlString keywords)

/-- The request has the three parameters, with the keyword as the value of the
first, and no fragment. -/
def CarriesKeyword (keyword : String) : Prop :=
  ∃ url, searchURL keyword = some url ∧ fragment url = none ∧
    parameters url =
      some [("query", some keyword), ("addRecipeInformation", some "true"),
        ("apiKey", some apiKey)]

/-- The character stands for itself in the value of a parameter. -/
def StandsForItself (c : Char) : Prop :=
  isAllowed c = true ∧ c ≠ '&' ∧ c ≠ '#' ∧ c ≠ '%'

theorem nsURL_eq_some_iff {string : String} {url : List Char} :
    nsURL string = some url ↔
      ((∀ c ∈ string.toList, isAllowed c = true) ∧
        (percentBytes string.toList).isSome = true) ∧
      string.toList = url := by
  rw [nsURL, ← List.all_eq_true, ← Bool.and_eq_true,
    Option.ite_none_right_eq_some, Option.some.injEq]

/-! ## The parts of the URL -/

def endpoint : List Char :=
  "https://api.spoonacular.com/recipes/complexSearch".toList

def queryPiece (keyword : String) : List Char :=
  "query".toList ++ '=' :: keyword.toList

def informationPiece : List Char :=
  "addRecipeInformation".toList ++ '=' :: "true".toList

def keyPiece : List Char :=
  "apiKey".toList ++ '=' :: apiKey.toList

def queryText (keyword : String) : List Char :=
  queryPiece keyword ++ '&' :: (informationPiece ++ '&' :: keyPiece)

theorem joined_toList {first keyword second key : String}
    {before name rest : List Char}
    (head : first.toList = before ++ '?' :: (name ++ ['=']))
    (tail : second.toList ++ key.toList = '&' :: rest) :
    (first ++ keyword ++ second ++ key).toList =
      before ++ '?' :: (name ++ '=' :: keyword.toList ++ '&' :: rest) := by
  rw [String.toList_append, String.toList_append, String.toList_append,
    List.append_assoc _ second.toList, tail, head]
  simp

theorem urlString_toList (keyword : String) :
    (urlString keyword).toList = endpoint ++ '?' :: queryText keyword :=
  joined_toList (by decide) (by decide)

theorem splitOn_queryText (keyword : String) :
    (queryText keyword).splitOn '&' =
      (queryPiece keyword).splitOn '&' ++ [informationPiece, keyPiece] := by
  have first : '&' ∉ informationPiece := by decide
  have last : '&' ∉ keyPiece := by decide
  rw [queryText, List.splitOn_append_cons_self,
    List.splitOn_append_cons_self_of_not_mem first,
    List.splitOn_eq_singleton last]

/-- The characters of the URL around the keyword. -/
def fixedText : List Char :=
  endpoint ++ '?' :: ("query".toList ++ '=' :: '&' ::
    (informationPiece ++ '&' :: keyPiece))

theorem mem_joined_iff {c : Char} {before name keyword rest : List Char} :
    c ∈ before ++ '?' :: (name ++ '=' :: keyword ++ '&' :: rest) ↔
      c ∈ keyword ∨ c ∈ before ++ '?' :: (name ++ '=' :: '&' :: rest) := by
  simp only [List.mem_append, List.mem_cons]
  tauto

theorem mem_urlString_iff {keyword : String} {c : Char} :
    c ∈ (urlString keyword).toList ↔
      c ∈ keyword.toList ∨ c ∈ fixedText := by
  rw [urlString_toList]
  exact mem_joined_iff

def isPlain (c : Char) : Bool :=
  isAllowed c && c != '#' && c != '%'

theorem isPlain_iff (c : Char) :
    isPlain c = true ↔ isAllowed c = true ∧ c ≠ '#' ∧ c ≠ '%' := by
  simp [isPlain, and_assoc]

theorem all_joined {test : Char → Bool}
    {before name first second : List Char}
    (signs : [ '?', '=', '&' ].all test = true)
    (inBefore : before.all test = true) (inName : name.all test = true)
    (inFirst : first.all test = true) (inSecond : second.all test = true) :
    (before ++ '?' :: (name ++ '=' :: '&' ::
        (first ++ '&' :: second))).all test = true := by
  simp only [List.all_cons, List.all_nil, Bool.and_eq_true] at signs
  simp only [List.all_append, List.all_cons, Bool.and_eq_true]
  exact ⟨inBefore, signs.1, inName, signs.2.1, signs.2.2.1, inFirst,
    signs.2.2.1, inSecond⟩

/-- The parts are evaluated one at a time. -/
theorem fixedText_plain : fixedText.all isPlain = true :=
  all_joined (by decide) (by decide) (by decide) (by decide) (by decide)

theorem endpoint_unqueried : '?' ∉ endpoint := by
  decide

/-- Where the URL has no fragment, its parameters are those of the pieces of
the keyword and the two that follow. -/
theorem parameters_urlString {keyword : String}
    (unfragmented : '#' ∉ (urlString keyword).toList) :
    parameters (urlString keyword).toList =
      ((queryPiece keyword).splitOn '&' ++
        [informationPiece, keyPiece]).mapM parameter := by
  rw [urlString_toList] at unfragmented ⊢
  rw [parameters_append unfragmented endpoint_unqueried, splitOn_queryText]

theorem parameter_queryPiece (keyword : String) :
    parameter (queryPiece keyword) =
      (percentDecode keyword.toList).map fun value =>
        ("query", some value) :=
  parameter_append keyword.toList (by decide) (by decide)

theorem parameter_informationPiece :
    parameter informationPiece =
      some ("addRecipeInformation", some "true") :=
  parameter_plain (by decide) (by decide) (by decide)

theorem parameter_keyPiece :
    parameter keyPiece = some ("apiKey", some apiKey) :=
  parameter_plain (by decide) (by decide) (by decide)

/-! ## Which keywords arrive -/

theorem carriesKeyword_of_standsForItself {keyword : String}
    (every : ∀ c ∈ keyword.toList, StandsForItself c) :
    CarriesKeyword keyword := by
  have plain :
      ∀ c ∈ (urlString keyword).toList,
        isAllowed c = true ∧ c ≠ '#' ∧ c ≠ '%' := by
    intro c member
    rcases mem_urlString_iff.mp member with entered | fixed
    · exact ⟨(every c entered).1, (every c entered).2.2⟩
    · exact (isPlain_iff c).mp
        (List.all_eq_true.mp fixedText_plain c fixed)
  have unfragmented : '#' ∉ (urlString keyword).toList := fun member =>
    (plain '#' member).2.1 rfl
  have unescaped : '%' ∉ (urlString keyword).toList := fun member =>
    (plain '%' member).2.2 rfl
  have accepted :
      searchURL keyword = some (urlString keyword).toList := by
    refine nsURL_eq_some_iff.mpr ⟨⟨?_, ?_⟩, rfl⟩
    · intro c member
      exact (plain c member).1
    · rw [percentBytes_of_plain unescaped]
      rfl
  have whole : (queryPiece keyword).splitOn '&' = [queryPiece keyword] := by
    apply List.splitOn_eq_singleton
    intro member
    rcases List.mem_append.mp member with name | value
    · exact absurd name (by decide)
    · rcases List.mem_cons.mp value with sign | entered
      · exact absurd sign (by decide)
      · exact (every '&' entered).2.1 rfl
  have itself : percentDecode keyword.toList = some keyword :=
    (percentDecode_eq_self_iff keyword).mpr fun member =>
      (every '%' member).2.2.2 rfl
  refine ⟨_, accepted, (fragment_eq_none_iff _).mpr unfragmented, ?_⟩
  rw [parameters_urlString unfragmented, whole, List.singleton_append,
    List.mapM_cons, List.mapM_cons, List.mapM_cons, parameter_queryPiece,
    itself, parameter_informationPiece, parameter_keyPiece]
  rfl

theorem standsForItself_of_carriesKeyword {keyword : String}
    (carries : CarriesKeyword keyword) :
    ∀ c ∈ keyword.toList, StandsForItself c := by
  rcases carries with ⟨url, accepted, noFragment, carried⟩
  rcases nsURL_eq_some_iff.mp accepted with ⟨⟨allowed, _⟩, rfl⟩
  have unfragmented := (fragment_eq_none_iff _).mp noFragment
  rw [parameters_urlString unfragmented] at carried
  have unsplit : '&' ∉ queryPiece keyword := by
    intro member
    have several := length_splitOn member
    have pieces := length_of_mapM carried
    simp only [List.length_append, List.length_cons, List.length_nil]
      at pieces
    omega
  rw [List.splitOn_eq_singleton unsplit, List.singleton_append,
    List.mapM_cons, List.mapM_cons, List.mapM_cons, parameter_queryPiece,
    parameter_informationPiece, parameter_keyPiece] at carried
  have itself : percentDecode keyword.toList = some keyword := by
    cases decoded : percentDecode keyword.toList with
    | none =>
        rw [decoded] at carried
        cases carried
    | some value =>
        rw [decoded] at carried
        cases carried
        rfl
  have unescaped := (percentDecode_eq_self_iff keyword).mp itself
  intro c member
  refine ⟨allowed c (mem_urlString_iff.mpr (Or.inl member)), ?_, ?_, ?_⟩
  · rintro rfl
    exact unsplit (List.mem_append_right _ (List.mem_cons_of_mem _ member))
  · rintro rfl
    exact unfragmented (mem_urlString_iff.mpr (Or.inl member))
  · rintro rfl
    exact unescaped member

/-- A keyword arrives exactly when each of its characters stands for
itself. -/
theorem carriesKeyword_iff (keyword : String) :
    CarriesKeyword keyword ↔ ∀ c ∈ keyword.toList, StandsForItself c :=
  ⟨standsForItself_of_carriesKeyword, carriesKeyword_of_standsForItself⟩

/-- A space is no character of a URL, and the other three signs mean something
there. -/
theorem not_carriesKeyword :
    searchURL "chicken soup" = none ∧
      ¬ CarriesKeyword "chicken soup" ∧ ¬ CarriesKeyword "mac&cheese" ∧
      ¬ CarriesKeyword "pasta#1" ∧ ¬ CarriesKeyword "%41" := by
  refine ⟨?_, ?_, ?_, ?_, ?_⟩
  · rw [Option.eq_none_iff_forall_ne_some]
    intro url accepted
    have valid := (nsURL_eq_some_iff.mp accepted).1.1
    have space := valid ' ' (mem_urlString_iff.mpr (Or.inl (by decide)))
    exact absurd space (by decide)
  · intro carries
    have space := standsForItself_of_carriesKeyword carries ' ' (by decide)
    exact absurd space.1 (by decide)
  · intro carries
    have sign := standsForItself_of_carriesKeyword carries '&' (by decide)
    exact sign.2.1 rfl
  · intro carries
    have sign := standsForItself_of_carriesKeyword carries '#' (by decide)
    exact sign.2.2.1 rfl
  · intro carries
    have sign := standsForItself_of_carriesKeyword carries '%' (by decide)
    exact sign.2.2.2 rfl

end SearchResultsViewController
end PocketChef
