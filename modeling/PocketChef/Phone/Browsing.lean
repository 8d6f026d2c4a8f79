import PocketChef.Library.Reactive
import PocketChef.Phone.InstructionsViewController

/-!
# Browsing the stored recipes

The instructions screen on its own, from the end of `viewDidLoad`: the two
buttons, and the block of `loadCoreInstruction`, which runs once at any time.
The buttons set the title with the index.  The block moves the index to the
last record and leaves the title as it is.
-/

namespace PocketChef
namespace InstructionsViewController

open Reactive

/-- The screen, and whether the block is still on the main queue. -/
structure Browsing where
  phone : InstructionsViewController
  deferred : Bool

inductive BrowsingEvent where
  | deferredBlock
  | previousTapped
  | nextTapped
  deriving DecidableEq

namespace Browsing

def machine : Machine Browsing BrowsingEvent where
  enabled
    | browsing, .deferredBlock => browsing.deferred = true
    | browsing, .previousTapped => browsing.phone.previousButton = true
    | browsing, .nextTapped => browsing.phone.nextButton = true
  step
    | browsing, .deferredBlock =>
        browsing.phone.deferredBlock.result.map fun phone => ⟨phone, false⟩
    | browsing, .previousTapped =>
        browsing.phone.previousTapped.result.map fun phone =>
          { browsing with phone := phone }
    | browsing, .nextTapped =>
        browsing.phone.nextTapped.result.map fun phone =>
          { browsing with phone := phone }

instance : ∀ browsing event, Decidable (machine.enabled browsing event)
  | browsing, .deferredBlock =>
      inferInstanceAs (Decidable (browsing.deferred = true))
  | browsing, .previousTapped =>
      inferInstanceAs (Decidable (browsing.phone.previousButton = true))
  | browsing, .nextTapped =>
      inferInstanceAs (Decidable (browsing.phone.nextButton = true))

/-- The arrays are those of the records, and `index` is one of them. -/
structure Loaded (records : List Instruction)
    (phone : InstructionsViewController) : Prop where
  instructions : phone.instructions = records.map Instruction.steps
  titles : phone.titles = records.map Instruction.title
  inRange : phone.InRange

/-- The table's data source has one row for each step, with its text. -/
def Serves (phone : InstructionsViewController) (steps : List String) :
    Prop :=
  phone.numberOfRowsInSection = some steps.length ∧
    ∀ row step, steps[row]? = some step →
      phone.cellForRowAt row = some ("Step " ++ toString (row + 1), step)

/-- The arrays, the index and the buttons fit together, and whatever reads a
title or a step finds one. -/
structure InBounds (phone : InstructionsViewController) : Prop where
  inRange : phone.InRange
  title : (SwiftArray.get phone.titles phone.index).isSome = true
  rows :
    ∃ count, phone.numberOfRowsInSection = some count ∧
      ∀ row < count, (phone.cellForRowAt row).isSome = true
  sends : phone.sendInstruction.result.isSome = true

/-- The title and the rows are those of the record number `index`. -/
def ShowsRecord (records : List Instruction)
    (phone : InstructionsViewController) : Prop :=
  ∃ record ∈ SwiftArray.get records phone.index,
    phone.titleLabel = record.title ∧ Serves phone record.steps

/-- When the block runs, the title on display is that of the last record. -/
def TitleOfLast (records : List Instruction) (browsing : Browsing) :
    BrowsingEvent → Prop
  | .deferredBlock =>
      ∃ last ∈ SwiftArray.get records ((records.length : Int) - 1),
        browsing.phone.titleLabel = last.title
  | .previousTapped => True
  | .nextTapped => True

instance (records : List Instruction) (browsing : Browsing) :
    DecidablePred (TitleOfLast records browsing)
  | .deferredBlock => inferInstanceAs <| Decidable <|
      ∃ last ∈ SwiftArray.get records ((records.length : Int) - 1),
        browsing.phone.titleLabel = last.title
  | .previousTapped => inferInstanceAs (Decidable True)
  | .nextTapped => inferInstanceAs (Decidable True)

/-! ## What the screen shows -/

section Shown

variable {records : List Instruction} {phone : InstructionsViewController}

theorem Loaded.count (loaded : Loaded records phone) :
    phone.instructions.length = records.length := by
  rw [loaded.instructions, List.length_map]

/-- The record number `target`, with what the two arrays have for it. -/
theorem Loaded.exists_record (loaded : Loaded records phone) {target : Int}
    (lower : 0 ≤ target) (upper : target < records.length) :
    ∃ record,
      SwiftArray.get records target = some record ∧
        SwiftArray.get phone.instructions target = some record.steps ∧
        SwiftArray.get phone.titles target = some record.title := by
  rcases (SwiftArray.exists_get_iff records target).mpr ⟨lower, upper⟩ with
    ⟨record, found⟩
  refine ⟨record, found, ?_, ?_⟩
  · rw [loaded.instructions, SwiftArray.get_map, found, Option.map_some]
  · rw [loaded.titles, SwiftArray.get_map, found, Option.map_some]

theorem serves_of_shown {steps : List String}
    (shown : phone.shownSteps = some steps) : Serves phone steps := by
  have read : SwiftArray.get phone.instructions phone.index = some steps :=
    shown
  constructor
  · simp [numberOfRowsInSection, read]
  · intro row step found
    simp [cellForRowAt, read, SwiftArray.get_natCast, found]

theorem Loaded.exists_shown (loaded : Loaded records phone) :
    ∃ record,
      SwiftArray.get records phone.index = some record ∧
        SwiftArray.get phone.titles phone.index = some record.title ∧
        Serves phone record.steps := by
  have inRange := loaded.inRange
  rcases loaded.exists_record inRange.lower
    (loaded.count ▸ inRange.upper) with ⟨record, found, steps, title⟩
  exact ⟨record, found, title, serves_of_shown steps⟩

/-- The rows always belong to the record number `index`; only the title can
be wrong. -/
theorem Loaded.showsRecord_iff (loaded : Loaded records phone) :
    ShowsRecord records phone ↔
      ∃ record ∈ SwiftArray.get records phone.index,
        phone.titleLabel = record.title := by
  rcases loaded.exists_shown with ⟨shown, found, _, serves⟩
  unfold ShowsRecord
  rw [found]
  simp [serves]

theorem Loaded.inBounds (loaded : Loaded records phone) :
    InBounds phone where
  inRange := loaded.inRange
  title := by
    rcases loaded.exists_shown with ⟨record, _, title, _⟩
    rw [title]
    rfl
  rows := by
    rcases loaded.exists_shown with ⟨record, _, _, count, cells⟩
    refine ⟨record.steps.length, count, ?_⟩
    intro row inRange
    rw [cells row record.steps[row] (List.getElem?_eq_getElem inRange)]
    rfl
  sends := by
    have inRange := loaded.inRange
    rcases phone.exists_steps_at inRange.lower inRange.upper with
      ⟨steps, shown⟩
    by_cases connected : phone.Connected
    · rw [phone.sendInstruction_of_connected shown connected]
      rfl
    · rw [phone.sendInstruction_of_not_connected shown connected]
      rfl

end Shown

/-! ## One step -/

section Steps

variable {records : List Instruction} {phone : InstructionsViewController}

theorem Loaded.checkButtons (loaded : Loaded records phone) {target : Int}
    (lower : 0 ≤ target) (upper : target < records.length)
    (title : String) :
    Loaded records
      { phone with index := target, titleLabel := title }.checkButtons where
  instructions := by simp [loaded.instructions]
  titles := by simp [loaded.titles]
  inRange :=
    checkButtons_inRange _ loaded.inRange.titles lower
      (loaded.count.symm ▸ upper)

theorem Loaded.deferredBlock (loaded : Loaded records phone) :
    ∃ next,
      phone.deferredBlock.result = some next ∧
        Loaded records next ∧
        next.index = (records.length : Int) - 1 ∧
        next.titleLabel = phone.titleLabel := by
  have lower := loaded.inRange.lower
  have upper := loaded.inRange.upper
  rw [loaded.count] at upper
  have first : 0 ≤ (records.length : Int) - 1 := by omega
  have last : (records.length : Int) - 1 < records.length := by omega
  rcases loaded.exists_record first last with ⟨record, _, steps, _⟩
  rw [← loaded.count] at steps
  refine ⟨_, by rw [phone.deferredBlock_eq steps], ?_, ?_, ?_⟩
  · rw [loaded.count]
    exact loaded.checkButtons first last phone.titleLabel
  · simp [loaded.count]
  · simp

theorem Loaded.turnBy (loaded : Loaded records phone) {offset : Int}
    (lower : 0 ≤ phone.index + offset)
    (upper : phone.index + offset < records.length) :
    ∃ next record,
      (phone.turnBy offset).result = some next ∧
        Loaded records next ∧
        SwiftArray.get records next.index = some record ∧
        next.titleLabel = record.title := by
  rcases loaded.exists_record lower upper with
    ⟨record, found, steps, title⟩
  refine ⟨_, record, by rw [phone.turnBy_eq steps title], ?_, ?_, ?_⟩
  · exact loaded.checkButtons lower upper record.title
  · simpa using found
  · simp

theorem Loaded.previousTapped (loaded : Loaded records phone)
    (enabled : phone.previousButton = true) :
    ∃ next record,
      phone.previousTapped.result = some next ∧
        Loaded records next ∧
        SwiftArray.get records next.index = some record ∧
        next.titleLabel = record.title := by
  have positive := loaded.inRange.previous.mp enabled
  have upper := loaded.inRange.upper
  rw [loaded.count] at upper
  exact loaded.turnBy (by omega) (by omega)

theorem Loaded.nextTapped (loaded : Loaded records phone)
    (enabled : phone.nextButton = true) :
    ∃ next record,
      phone.nextTapped.result = some next ∧
        Loaded records next ∧
        SwiftArray.get records next.index = some record ∧
        next.titleLabel = record.title := by
  have below := loaded.inRange.next.mp enabled
  have lower := loaded.inRange.lower
  rw [loaded.count] at below
  exact loaded.turnBy (by omega) (by omega)

/-- No enabled event traps, and the screen stays in range. -/
theorem step_loaded (browsing : Browsing) (event : BrowsingEvent)
    (loaded : Loaded records browsing.phone)
    (enabled : machine.enabled browsing event) :
    ∃ next ∈ machine.step browsing event, Loaded records next.phone := by
  cases event with
  | deferredBlock =>
      rcases loaded.deferredBlock with ⟨phone, handled, kept, _, _⟩
      exact ⟨_, Option.map_eq_some_iff.mpr ⟨phone, handled, rfl⟩, kept⟩
  | previousTapped =>
      rcases loaded.previousTapped enabled with
        ⟨phone, _, handled, kept, _, _⟩
      exact ⟨_, Option.map_eq_some_iff.mpr ⟨phone, handled, rfl⟩, kept⟩
  | nextTapped =>
      rcases loaded.nextTapped enabled with ⟨phone, _, handled, kept, _, _⟩
      exact ⟨_, Option.map_eq_some_iff.mpr ⟨phone, handled, rfl⟩, kept⟩

/-- Only the block can part the title from the rows. -/
theorem step_showsRecord_iff (browsing : Browsing) (event : BrowsingEvent)
    (loaded : Loaded records browsing.phone)
    (enabled : machine.enabled browsing event) :
    TitleOfLast records browsing event ↔
      ∃ next ∈ machine.step browsing event,
        ShowsRecord records next.phone := by
  cases event with
  | deferredBlock =>
      rcases loaded.deferredBlock with ⟨phone, handled, kept, index, title⟩
      have step :
          machine.step browsing .deferredBlock = some ⟨phone, false⟩ :=
        Option.map_eq_some_iff.mpr ⟨phone, handled, rfl⟩
      simp only [step, Option.mem_some_iff, exists_eq_left',
        kept.showsRecord_iff, index, title]
      exact Iff.rfl
  | previousTapped =>
      rcases loaded.previousTapped enabled with
        ⟨phone, record, handled, kept, found, title⟩
      have shows := kept.showsRecord_iff.mpr ⟨record, found, title⟩
      exact iff_of_true trivial
        ⟨_, Option.map_eq_some_iff.mpr ⟨phone, handled, rfl⟩, shows⟩
  | nextTapped =>
      rcases loaded.nextTapped enabled with
        ⟨phone, record, handled, kept, found, title⟩
      have shows := kept.showsRecord_iff.mpr ⟨record, found, title⟩
      exact iff_of_true trivial
        ⟨_, Option.map_eq_some_iff.mpr ⟨phone, handled, rfl⟩, shows⟩

end Steps

/-! ## Whole runs -/

/-- A fresh screen over at least one record loads and shows the first. -/
theorem exists_viewDidLoad {records : List Instruction}
    (nonempty : records ≠ []) (session : Option WCSession) :
    ∃ phone,
      viewDidLoad {} (some records) session = some phone ∧
        Loaded records phone ∧ ShowsRecord records phone := by
  rcases List.exists_cons_of_ne_nil nonempty with ⟨first, rest, rfl⟩
  refine ⟨_, viewDidLoad_cons first rest session, ?_⟩
  have loaded :
      Loaded (first :: rest)
        { checkButtons
            { instructions := (first :: rest).map Instruction.steps
              titles := (first :: rest).map Instruction.title
              titleLabel := first.title } with
          session := session } := by
    refine ⟨?_, ?_, viewDidLoad_inRange (viewDidLoad_cons first rest session)⟩
    · exact checkButtons_instructions _
    · exact checkButtons_titles _
  refine ⟨loaded, loaded.showsRecord_iff.mpr ⟨first, ?_, ?_⟩⟩
  · exact congrArg (SwiftArray.get (first :: rest)) (checkButtons_index _)
  · exact checkButtons_titleLabel _

/-- Over at least one record the screen loads, and no run leaves the range or
traps. -/
theorem browsing_inBounds (records : List Instruction)
    (nonempty : records ≠ []) (session : Option WCSession) :
    ∃ phone,
      viewDidLoad {} (some records) session = some phone ∧
        ∀ events, machine.Legal ⟨phone, true⟩ events →
          machine.Always (fun browsing => InBounds browsing.phone)
            ⟨phone, true⟩ events := by
  rcases exists_viewDidLoad nonempty session with
    ⟨phone, viewLoaded, loaded, _⟩
  refine ⟨phone, viewLoaded, ?_⟩
  intro events legal
  have kept :
      machine.Always (fun browsing => Loaded records browsing.phone)
        ⟨phone, true⟩ events :=
    Machine.always_of_advance step_loaded loaded legal
  exact kept.imp fun _ loaded => loaded.inBounds

def toast : Instruction :=
  { id := 1, steps := ["Slice", "Toast"], title := "Toast" }

def porridge : Instruction :=
  { id := 2, steps := [], title := "Porridge" }

theorem browsing_inBounds_two_records :
    ∃ phone,
      viewDidLoad {} (some [toast, porridge]) none = some phone ∧
        machine.Always (fun browsing => InBounds browsing.phone)
          ⟨phone, true⟩ [.nextTapped, .deferredBlock, .previousTapped] := by
  rcases browsing_inBounds [toast, porridge] (by decide) none with
    ⟨phone, viewLoaded, always⟩
  refine ⟨phone, viewLoaded, always _ ?_⟩
  cases viewLoaded
  decide

/-- In every state of a run the title belongs to the rows exactly when the
block, should it run, finds the title of the last record on display. -/
theorem showsRecord_iff_titleOfLast (records : List Instruction)
    (session : Option WCSession) (phone : InstructionsViewController)
    (events : List BrowsingEvent)
    (viewLoaded : viewDidLoad {} (some records) session = some phone)
    (legal : machine.Legal ⟨phone, true⟩ events) :
    machine.Always (fun browsing => ShowsRecord records browsing.phone)
        ⟨phone, true⟩ events ↔
      machine.EachStep (TitleOfLast records) ⟨phone, true⟩ events := by
  have nonempty : records ≠ [] := by
    intro empty
    rw [empty] at viewLoaded
    cases viewLoaded
  rcases exists_viewDidLoad nonempty session with
    ⟨other, otherLoaded, loaded, shows⟩
  cases viewLoaded.symm.trans otherLoaded
  exact Machine.always_iff_eachStep
    (Machine.keeps_of_advance step_loaded)
    (fun browsing event loaded _ enabled =>
      step_showsRecord_iff browsing event loaded enabled)
    loaded shows legal

/-- The screen over both records. -/
def opened : InstructionsViewController :=
  { instructions := [["Slice", "Toast"], []]
    titles := ["Toast", "Porridge"]
    titleLabel := "Toast"
    previousButton := false
    nextButton := true }

theorem showsRecord_last_reached :
    machine.Always (fun browsing => ShowsRecord [toast, porridge] browsing.phone)
      ⟨opened, true⟩ [.nextTapped, .deferredBlock, .previousTapped] :=
  (showsRecord_iff_titleOfLast [toast, porridge] none opened _ rfl
    (by decide)).mpr (by decide)

/-- The block runs while the first record is on display. -/
theorem title_left_behind :
    viewDidLoad {} (some [toast, porridge]) none = some opened ∧
      machine.Legal ⟨opened, true⟩ [.deferredBlock] ∧
        ¬ machine.Always
          (fun browsing => ShowsRecord [toast, porridge] browsing.phone)
          ⟨opened, true⟩ [.deferredBlock] := by
  refine ⟨rfl, by decide, ?_⟩
  intro always
  rcases always.2 with ⟨next, handled, record, found, title, _⟩
  cases handled
  cases found
  exact absurd title (by decide)

end Browsing
end InstructionsViewController
end PocketChef
