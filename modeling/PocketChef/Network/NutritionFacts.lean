import PocketChef.Network.IngredientLoaders

/-!
# What the nutrition labels show

The storyboard gives each of the fifteen labels a placeholder.  A nutrient
stands in the response either at the top or among the entries of one of the
arrays `bad` and `good`, under a title.

Once both arrays arrive, each label shows its own nutrient.  A handler that
returns before its block leaves the placeholders, which then pass for facts.
-/

namespace PocketChef

/-- The fifteen labels, by the outlets of the screen. -/
inductive NutritionLabel where
  | cal
  | carb
  | sugar
  | fat
  | sat
  | chol
  | prot
  | fib
  | sod
  | pota
  | «calc»
  | iron
  | z
  | va
  | vc
  deriving DecidableEq

/-- Where a response has the value of a nutrient. -/
inductive NutritionSource where
  | top (name : String)
  | bad (title : String)
  | good (title : String)
  deriving DecidableEq

namespace NutritionLabel

/-- The nutrient of each label. -/
def source : NutritionLabel → NutritionSource
  | cal => .top "calories"
  | carb => .top "carbs"
  | fat => .top "fat"
  | prot => .top "protein"
  | sat => .bad "Saturated Fat"
  | sugar => .bad "Sugar"
  | chol => .bad "Cholesterol"
  | sod => .bad "Sodium"
  | vc => .good "Vitamin C"
  | va => .good "Vitamin A"
  | fib => .good "Fiber"
  | «calc» => .good "Calcium"
  | iron => .good "Iron"
  | pota => .good "Potassium"
  | z => .good "Zinc"

end NutritionLabel

namespace NutritionLabels

def text (labels : NutritionLabels) : NutritionLabel → Option String
  | .cal => labels.cal
  | .carb => labels.carb
  | .sugar => labels.sugar
  | .fat => labels.fat
  | .sat => labels.sat
  | .chol => labels.chol
  | .prot => labels.prot
  | .fib => labels.fib
  | .sod => labels.sod
  | .pota => labels.pota
  | .«calc» => labels.«calc»
  | .iron => labels.iron
  | .z => labels.z
  | .va => labels.va
  | .vc => labels.vc

/-- The texts of the labels in the storyboard. -/
def storyboard : NutritionLabels where
  cal := some "250 Kcal"
  carb := some "20 g"
  sugar := some "2 g"
  fat := some "12 g"
  sat := some "2g"
  chol := some "2g"
  prot := some "3 g"
  fib := some "2g"
  sod := some "2g"
  pota := some "2g"
  «calc» := some "2g"
  iron := some "2g"
  z := some "2g"
  va := some "2g"
  vc := some "2g"

end NutritionLabels

/-! ## What a response says -/

namespace NutritionFacts

/-- The string under `name`, if there is one. -/
def stringIn (members : List (String × AnyJson)) (name : String) :
    Option String :=
  match Json.member members name with
  | some (.string text) => some text
  | _ => none

/-- The title of an entry that is an object with a string title. -/
def titleOf : AnyJson → Option String
  | .object members => stringIn members "title"
  | _ => none

def amountOf : AnyJson → Option String
  | .object members => stringIn members "amount"
  | _ => none

/-- The amount of the last entry with the title, or `before` where there is
none. -/
def lastAmountOr (before : Option String) (entries : List AnyJson)
    (title : String) : Option String :=
  SwiftArray.lastOr (fun entry => titleOf entry = some title) amountOf before
    entries

def lastAmount (entries : List AnyJson) (title : String) : Option String :=
  lastAmountOr none entries title

/-- The value of a nutrient in an object with both arrays. -/
def valueIn (members : List (String × AnyJson)) (bad good : List AnyJson) :
    NutritionSource → Option String
  | .top name => stringIn members name
  | .bad title => lastAmount bad title
  | .good title => lastAmount good title

/-! ## The loops -/

theorem field_asString (members : List (String × AnyJson)) (name : String) :
    AnyJson.field Json.asString members name = stringIn members name := by
  unfold AnyJson.field stringIn
  rcases Json.member members name with _ | value
  · rfl
  · cases value <;> rfl

theorem field_asArray_eq_some_iff {members : List (String × AnyJson)}
    {name : String} {items : List AnyJson} :
    AnyJson.field Json.asArray members name = some items ↔
      Json.member members name = some (.array items) := by
  unfold AnyJson.field
  rw [Option.bind_eq_some_iff]
  simp only [Json.asArray_eq_some_iff, exists_eq_right]

theorem titleAndAmount_eq (entry : AnyJson) :
    Nutrition.titleAndAmount entry =
      (titleOf entry).map fun title => (title, amountOf entry) := by
  cases entry with
  | object members =>
      simp only [Nutrition.titleAndAmount, Json.asObject, titleOf, amountOf,
        field_asString]
      exact Option.map_eq_bind.symm
  | _ => rfl

theorem lastAmountOr_append_singleton (before : Option String)
    (entries : List AnyJson) (entry : AnyJson) (title : String) :
    lastAmountOr before (entries ++ [entry]) title =
      if titleOf entry = some title then amountOf entry
      else lastAmountOr before entries title := by
  rw [lastAmountOr, SwiftArray.lastOr_append_singleton]
  simp [lastAmountOr]

/-- An entry of `bad` overwrites the amount of its own title. -/
theorem addBad_eq (self : Nutrition) (entry : AnyJson) :
    self.addBad entry =
      { self with
        satfat :=
          if titleOf entry = some "Saturated Fat" then amountOf entry
          else self.satfat
        sugar :=
          if titleOf entry = some "Sugar" then amountOf entry
          else self.sugar
        cholest :=
          if titleOf entry = some "Cholesterol" then amountOf entry
          else self.cholest
        sodium :=
          if titleOf entry = some "Sodium" then amountOf entry
          else self.sodium } := by
  rw [Nutrition.addBad, titleAndAmount_eq]
  cases titleOf entry with
  | none => simp
  | some title =>
      by_cases satfat : title = "Saturated Fat"
      · simp [satfat]
      by_cases sugar : title = "Sugar"
      · simp [sugar]
      by_cases cholest : title = "Cholesterol"
      · simp [cholest]
      by_cases sodium : title = "Sodium"
      · simp [sodium]
      simp [satfat, sugar, cholest, sodium]

/-- An entry of `good` overwrites the amount of its own title. -/
theorem addGood_eq (self : Nutrition) (entry : AnyJson) :
    self.addGood entry =
      { self with
        vc :=
          if titleOf entry = some "Vitamin C" then amountOf entry
          else self.vc
        va :=
          if titleOf entry = some "Vitamin A" then amountOf entry
          else self.va
        fiber :=
          if titleOf entry = some "Fiber" then amountOf entry
          else self.fiber
        calcium :=
          if titleOf entry = some "Calcium" then amountOf entry
          else self.calcium
        iron :=
          if titleOf entry = some "Iron" then amountOf entry
          else self.iron
        pota :=
          if titleOf entry = some "Potassium" then amountOf entry
          else self.pota
        zinc :=
          if titleOf entry = some "Zinc" then amountOf entry
          else self.zinc } := by
  rw [Nutrition.addGood, titleAndAmount_eq]
  cases titleOf entry with
  | none => simp
  | some title =>
      by_cases vc : title = "Vitamin C"
      · simp [vc]
      by_cases va : title = "Vitamin A"
      · simp [va]
      by_cases fiber : title = "Fiber"
      · simp [fiber]
      by_cases calcium : title = "Calcium"
      · simp [calcium]
      by_cases iron : title = "Iron"
      · simp [iron]
      by_cases pota : title = "Potassium"
      · simp [pota]
      by_cases zinc : title = "Zinc"
      · simp [zinc]
      simp [vc, va, fiber, calcium, iron, pota, zinc]

theorem foldl_addBad (self : Nutrition) (bad : List AnyJson) :
    bad.foldl Nutrition.addBad self =
      { self with
        satfat := lastAmountOr self.satfat bad "Saturated Fat"
        sugar := lastAmountOr self.sugar bad "Sugar"
        cholest := lastAmountOr self.cholest bad "Cholesterol"
        sodium := lastAmountOr self.sodium bad "Sodium" } := by
  induction bad using List.reverseRecOn with
  | nil =>
      rfl
  | append_singleton entries entry inductionHypothesis =>
      rw [List.foldl_concat, inductionHypothesis, addBad_eq]
      simp only [lastAmountOr_append_singleton]

theorem foldl_addGood (self : Nutrition) (good : List AnyJson) :
    good.foldl Nutrition.addGood self =
      { self with
        vc := lastAmountOr self.vc good "Vitamin C"
        va := lastAmountOr self.va good "Vitamin A"
        fiber := lastAmountOr self.fiber good "Fiber"
        calcium := lastAmountOr self.calcium good "Calcium"
        iron := lastAmountOr self.iron good "Iron"
        pota := lastAmountOr self.pota good "Potassium"
        zinc := lastAmountOr self.zinc good "Zinc" } := by
  induction good using List.reverseRecOn with
  | nil =>
      rfl
  | append_singleton entries entry inductionHypothesis =>
      rw [List.foldl_concat, inductionHypothesis, addGood_eq]
      simp only [lastAmountOr_append_singleton]

/-- The variables after both loops. -/
def collected (members : List (String × AnyJson)) (bad good : List AnyJson) :
    Nutrition where
  calories := stringIn members "calories"
  carbs := stringIn members "carbs"
  fat := stringIn members "fat"
  protein := stringIn members "protein"
  satfat := lastAmount bad "Saturated Fat"
  sugar := lastAmount bad "Sugar"
  cholest := lastAmount bad "Cholesterol"
  sodium := lastAmount bad "Sodium"
  vc := lastAmount good "Vitamin C"
  va := lastAmount good "Vitamin A"
  fiber := lastAmount good "Fiber"
  calcium := lastAmount good "Calcium"
  iron := lastAmount good "Iron"
  pota := lastAmount good "Potassium"
  zinc := lastAmount good "Zinc"

theorem ofBody_of_arrays {members : List (String × AnyJson)}
    {bad good : List AnyJson}
    (badArray : Json.member members "bad" = some (.array bad))
    (goodArray : Json.member members "good" = some (.array good)) :
    Nutrition.ofBody (.ok (.object members)) =
      some (collected members bad good) := by
  have badFound := field_asArray_eq_some_iff.mpr badArray
  have goodFound := field_asArray_eq_some_iff.mpr goodArray
  simp only [Nutrition.ofBody, Json.asObject, badFound, goodFound,
    field_asString, Option.bind_eq_bind, Option.bind_some, foldl_addGood,
    foldl_addBad]
  rfl

/-- Each label gets the value of its own nutrient. -/
theorem text_collected (members : List (String × AnyJson))
    (bad good : List AnyJson) (label : NutritionLabel) :
    (collected members bad good).labels.text label =
      valueIn members bad good label.source := by
  cases label <;> rfl

/-- Whatever the labels showed, they are overwritten from both arrays. -/
theorem handle_of_arrays (labels : NutritionLabels) {reply : Reply}
    {members : List (String × AnyJson)} {bad good : List AnyJson}
    (delivers : reply.Delivers (.ok (.object members)))
    (badArray : Json.member members "bad" = some (.array bad))
    (goodArray : Json.member members "good" = some (.array good)) :
    NutritionLabels.nutritionLoader.handle labels reply =
      some (collected members bad good).labels := by
  have read := congrArg some (ofBody_of_arrays badArray goodArray)
  have finished :
      NutritionLabels.nutritionLoader.completionHandler labels reply =
        some ⟨labels, some (collected members bad good)⟩ :=
    completion_of_entries delivers read
  rw [Loader.handle, finished]
  rfl

/-- Once an object with both arrays arrives, every label shows the value of
its own nutrient in it, whatever it showed before. -/
theorem labels_show_response (labels : NutritionLabels) {reply : Reply}
    {members : List (String × AnyJson)} {bad good : List AnyJson}
    (delivers : reply.Delivers (.ok (.object members)))
    (badArray : Json.member members "bad" = some (.array bad))
    (goodArray : Json.member members "good" = some (.array good)) :
    ∃ shown, NutritionLabels.nutritionLoader.handle labels reply =
        some shown ∧
      ∀ label : NutritionLabel,
        shown.text label = valueIn members bad good label.source :=
  ⟨(collected members bad good).labels,
    handle_of_arrays labels delivers badArray goodArray,
    text_collected members bad good⟩

def entry (title amount : String) : AnyJson :=
  .object [("title", .string title), ("amount", .string amount)]

/-- Sugar stands in `bad` twice, and in `good` where nothing reads it. -/
def dinner : List (String × AnyJson) :=
  [("calories", .string "316"),
    ("bad", .array [entry "Sugar" "12g", .null, entry "Sugar" "9g"]),
    ("good", .array [entry "Sugar" "1g", entry "Iron" "2mg"])]

theorem labels_show_dinner :
    ∃ shown, NutritionLabels.nutritionLoader.handle
        NutritionLabels.storyboard
          { data := some (.ok (.object dinner)), statusCode := some 200 } =
        some shown ∧
      shown.cal = some "316" ∧ shown.sugar = some "9g" ∧
        shown.iron = some "2mg" ∧ shown.fat = none := by
  rcases labels_show_response NutritionLabels.storyboard
      (⟨rfl, rfl, rfl⟩ :
        Reply.Delivers
          { data := some (.ok (.object dinner)), statusCode := some 200 }
          (.ok (.object dinner)))
      rfl rfl with ⟨shown, handled, values⟩
  exact ⟨shown, handled, values .cal, values .sugar, values .iron,
    values .fat⟩

/-! ## Placeholders -/

/-- Some entry of the array has the title and the text as its amount. -/
def OccursAmong (members : List (String × AnyJson))
    (array title text : String) : Prop :=
  ∃ entries, Json.member members array = some (.array entries) ∧
    ∃ entry ∈ entries, titleOf entry = some title ∧
      amountOf entry = some text

/-- The data of the reply is an object that has the text for the nutrient. -/
def Occurs (reply : Reply) (source : NutritionSource) (text : String) :
    Prop :=
  ∃ members, reply.data = some (.ok (.object members)) ∧
    match source with
    | .top name => stringIn members name = some text
    | .bad title => OccursAmong members "bad" title text
    | .good title => OccursAmong members "good" title text

/-- Every text on a label occurs in the response for its nutrient. -/
def NothingInvented (reply : Reply) (labels : NutritionLabels) : Prop :=
  ∀ (label : NutritionLabel) (text : String),
    labels.text label = some text → Occurs reply label.source text

/-- The reply gets past all guards: its data is no JSON object, or an object
with both arrays. -/
def ReachesBlock (reply : Reply) : Prop :=
  ∃ body, reply.Delivers body ∧
    ∀ members, body = .ok (.object members) →
      ∃ bad good, Json.member members "bad" = some (.array bad) ∧
        Json.member members "good" = some (.array good)

/-- The data of the reply has every placeholder for its nutrient. -/
def HasPlaceholders (reply : Reply) : Prop :=
  ∀ label : NutritionLabel, ∃ placeholder,
    NutritionLabels.storyboard.text label = some placeholder ∧
      Occurs reply label.source placeholder

theorem exists_entry_of_lastAmount {entries : List AnyJson}
    {title text : String} (last : lastAmount entries title = some text) :
    ∃ entry ∈ entries, titleOf entry = some title ∧
      amountOf entry = some text := by
  unfold lastAmount lastAmountOr SwiftArray.lastOr at last
  cases found :
      (entries.filter fun entry => titleOf entry = some title).getLast? with
  | none =>
      rw [found] at last
      cases last
  | some entry =>
      rw [found] at last
      have member := List.mem_filter.mp (List.mem_of_getLast? found)
      exact ⟨entry, member.1, of_decide_eq_true member.2, last⟩

theorem occurs_of_valueIn {reply : Reply}
    {members : List (String × AnyJson)} {bad good : List AnyJson}
    (data : reply.data = some (.ok (.object members)))
    (badArray : Json.member members "bad" = some (.array bad))
    (goodArray : Json.member members "good" = some (.array good))
    {source : NutritionSource} {text : String}
    (value : valueIn members bad good source = some text) :
    Occurs reply source text := by
  refine ⟨members, data, ?_⟩
  cases source with
  | top name => exact value
  | bad title => exact ⟨bad, badArray, exists_entry_of_lastAmount value⟩
  | good title => exact ⟨good, goodArray, exists_entry_of_lastAmount value⟩

theorem nothingInvented_blank (reply : Reply) :
    NothingInvented reply (Nutrition.labels {}) := by
  intro label text shown
  cases label <;> cases shown

theorem nothingInvented_storyboard_iff (reply : Reply) :
    NothingInvented reply NutritionLabels.storyboard ↔
      HasPlaceholders reply := by
  constructor
  · intro honest label
    have labelled :
        ∃ placeholder,
          NutritionLabels.storyboard.text label = some placeholder := by
      cases label <;> exact ⟨_, rfl⟩
    rcases labelled with ⟨placeholder, labelled⟩
    exact ⟨placeholder, labelled, honest label placeholder labelled⟩
  · intro present label text shown
    rcases present label with ⟨placeholder, labelled, occurs⟩
    rw [labelled] at shown
    cases shown
    exact occurs

/-- A reply that reaches the block replaces all placeholders. -/
theorem nothingInvented_of_reachesBlock (labels : NutritionLabels)
    {reply : Reply} (reaches : ReachesBlock reply) :
    ∃ shown, NutritionLabels.nutritionLoader.handle labels reply =
        some shown ∧
      NothingInvented reply shown := by
  rcases reaches with ⟨body, delivers, arrays⟩
  by_cases isObject : ∃ members, body = .ok (.object members)
  · rcases isObject with ⟨members, rfl⟩
    rcases arrays members rfl with ⟨bad, good, badArray, goodArray⟩
    refine ⟨(collected members bad good).labels,
      handle_of_arrays labels delivers badArray goodArray, ?_⟩
    intro label text labelled
    rw [text_collected] at labelled
    exact occurs_of_valueIn delivers.data badArray goodArray labelled
  · have nothing : Nutrition.ofBody body = some {} := by
      cases body with
      | error message => rfl
      | ok json =>
          cases json with
          | object members => exact absurd ⟨members, rfl⟩ isObject
          | _ => rfl
    have finished :
        NutritionLabels.nutritionLoader.completionHandler labels reply =
          some ⟨labels, some {}⟩ :=
      completion_of_entries delivers (congrArg some nothing)
    refine ⟨Nutrition.labels {}, ?_, nothingInvented_blank reply⟩
    rw [Loader.handle, finished]
    rfl

theorem ofBody_eq_none {body : Body}
    (missing :
      ¬ ∀ members, body = .ok (.object members) →
        ∃ bad good, Json.member members "bad" = some (.array bad) ∧
          Json.member members "good" = some (.array good)) :
    Nutrition.ofBody body = none := by
  rw [not_forall] at missing
  rcases missing with ⟨members, missing⟩
  rw [Classical.not_imp] at missing
  rcases missing with ⟨rfl, missing⟩
  cases badFound : AnyJson.field Json.asArray members "bad" with
  | none => simp [Nutrition.ofBody, Json.asObject, badFound]
  | some bad =>
      cases goodFound : AnyJson.field Json.asArray members "good" with
      | none => simp [Nutrition.ofBody, Json.asObject, badFound, goodFound]
      | some good =>
          exact absurd
            ⟨bad, good, field_asArray_eq_some_iff.mp badFound,
              field_asArray_eq_some_iff.mp goodFound⟩ missing

/-- Any other reply leaves the labels as they are. -/
theorem handle_of_not_reachesBlock (labels : NutritionLabels)
    {reply : Reply} (stops : ¬ ReachesBlock reply) :
    NutritionLabels.nutritionLoader.handle labels reply = some labels := by
  have returned :
      NutritionLabels.nutritionLoader.completionHandler labels reply =
        some ⟨labels, none⟩ := by
    by_cases arrives : ∃ body, reply.Delivers body
    · rcases arrives with ⟨body, delivers⟩
      have missing : Nutrition.ofBody body = none :=
        ofBody_eq_none fun arrays => stops ⟨body, delivers, arrays⟩
      exact completion_of_return delivers (congrArg some missing)
    · exact completion_of_not_delivers (not_exists.mp arrives)
  rw [Loader.handle, returned]
  rfl

/-- Starting from the storyboard, nothing is invented exactly when the reply
reaches the block or happens to have every placeholder for its nutrient. -/
theorem nothingInvented_iff (reply : Reply) :
    ∃ shown, NutritionLabels.nutritionLoader.handle
        NutritionLabels.storyboard reply = some shown ∧
      (NothingInvented reply shown ↔
        ReachesBlock reply ∨ HasPlaceholders reply) := by
  by_cases reaches : ReachesBlock reply
  · rcases nothingInvented_of_reachesBlock NutritionLabels.storyboard
        reaches with ⟨shown, handled, honest⟩
    exact ⟨shown, handled, iff_of_true honest (Or.inl reaches)⟩
  · refine ⟨NutritionLabels.storyboard,
      handle_of_not_reachesBlock _ reaches, ?_⟩
    rw [or_iff_right reaches]
    exact nothingInvented_storyboard_iff reply

/-- The reply when the service refuses the request. -/
def refusal : Reply where
  statusCode := some 402

/-- A refusal leaves the placeholders, and so does an object without the array
`bad`, even for what it does have. -/
theorem placeholders_stay :
    (NutritionLabels.nutritionLoader.handle NutritionLabels.storyboard
          refusal = some NutritionLabels.storyboard ∧
        ¬ NothingInvented refusal NutritionLabels.storyboard) ∧
      NutritionLabels.nutritionLoader.handle NutritionLabels.storyboard
          { data := some (.ok (.object
              [("calories", .string "316"), ("good", .array [])]))
            statusCode := some 200 } =
        some NutritionLabels.storyboard := by
  refine ⟨⟨rfl, ?_⟩, rfl⟩
  intro honest
  rcases honest .cal "250 Kcal" rfl with ⟨members, present, _⟩
  cases present

end NutritionFacts

end PocketChef
