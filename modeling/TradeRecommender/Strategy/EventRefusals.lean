import TradeRecommender.Lib.IsoRefusals
import TradeRecommender.Strategy.EventIntake

/-!
# When an event is resolved or refused

`resolve_event` turns a `ReturnRefusal` into an unresolved result and lets every other exception
through. For each part of it, the shape its values need for nothing else to be raised:

1. values, comparisons and rows;
2. the input;
3. conversions;
4. the walk over the bars;
5. the result, and the whole event.

A shape is asked only of what is reached: of a value whose checks before it have passed.
-/

namespace TradeRecommender.Strategy.Intake

open Civil (Instant)
open Decimals Py
open Returns (Direction RouteDirection StrictlyAscending Terminal derivedHorizon require
  require_eq_ok returnRefusal)

/-! ## Values -/

section
variable {α β : Type}

/-- Nothing but a refusal is raised. -/
abbrev Safe (x : Except Exc α) : Prop := Contained [returnRefusal] x

/-- The computation has a result. -/
def Returns (x : Except Exc α) : Prop := ∃ a, x = .ok a

/-- A sequence, step by step. -/
theorem safe_seq {x : Except Exc α} {f : α → Except Exc β} :
    Safe (x >>= f) ↔ Safe x ∧ ∀ a, x = .ok a → Safe (f a) := contained_bind

theorem safe_refuse (text : String) : Safe (raise returnRefusal text : Except Exc α) :=
  contained_caught text List.mem_cons_self

theorem safe_require {condition : Prop} [Decidable condition] (message : String) :
    Safe (require condition message) :=
  contained_ite.mpr ⟨fun _ => contained_ok _, fun _ => safe_refuse message⟩

/-- A requirement lets the rest be reached only where it holds. -/
theorem safe_require_bind {condition : Prop} [Decidable condition] {message : String}
    {f : Unit → Except Exc α} :
    Safe (require condition message >>= f) ↔ (condition → Safe (f ())) := by
  rw [safe_seq]
  constructor
  · rintro ⟨-, rest⟩ holds
    exact rest () (require_eq_ok.mpr holds)
  · intro rest
    exact ⟨safe_require message, fun _ passed => rest (require_eq_ok.mp passed)⟩

/-- A step that is always safe. -/
theorem safe_bind {x : Except Exc α} {f : α → Except Exc β} (safe : Safe x) :
    Safe (x >>= f) ↔ ∀ a, x = .ok a → Safe (f a) :=
  contained_bind.trans ⟨fun h => h.2, fun h => ⟨safe, h⟩⟩

/-- A step of which no exception is caught. -/
theorem returns_bind {x : Except Exc α} {f : α → Except Exc β} (uncaught : Safe x ↔ Returns x) :
    Safe (x >>= f) ↔ ∃ a, x = .ok a ∧ Safe (f a) := by
  rw [safe_seq]
  constructor
  · rintro ⟨first, rest⟩
    obtain ⟨a, ran⟩ := uncaught.mp first
    exact ⟨a, ran, rest a ran⟩
  · rintro ⟨a, ran, rest⟩
    refine ⟨uncaught.mpr ⟨a, ran⟩, fun b same => ?_⟩
    rw [← Except.ok.inj (ran.symm.trans same)]
    exact rest

theorem returns_ok (a : α) : Safe (.ok a : Except Exc α) ↔ Returns (.ok a : Except Exc α) :=
  ⟨fun _ => ⟨a, rfl⟩, fun _ => contained_ok a⟩

theorem returns_raise {cls : ExcClass} {text : String} (other : cls.isSubclass returnRefusal = false) :
    Safe (raise cls text : Except Exc α) ↔ Returns (raise cls text : Except Exc α) := by
  constructor
  · intro safe
    have caught := contained_raise.mp safe
    rw [List.any_cons, List.any_nil, other] at caught
    cases caught
  · rintro ⟨a, h⟩
    cases h

theorem returns_ite {c : Prop} [Decidable c] {x y : Except Exc α} (yes : Safe x ↔ Returns x)
    (no : Safe y ↔ Returns y) :
    Safe (if c then x else y) ↔ Returns (if c then x else y) := by
  by_cases h : c
  · rw [if_pos h]
    exact yes
  · rw [if_neg h]
    exact no

end

theorem safe_decimal (value : Val) : Safe (decimal value) := by
  unfold decimal
  cases value with
  | str text =>
    dsimp only
    cases parse text with
    | none => exact safe_refuse _
    | some number => exact contained_ok _
  | int n => exact contained_ite.mpr ⟨fun _ => safe_refuse _, fun _ => contained_ok _⟩
  | _ => exact safe_refuse _

/-- Where a text names an instant, the instant lies in the calendar. -/
def InCalendar (value : Val) : Prop :=
  ∀ text stamp offset, value = .str text → Civil.fromisoformat (replaceZ text) = .ok stamp →
    stamp.offset = some offset →
      Civil.minInstant ≤ stamp.wall - offset ∧ stamp.wall - offset < Civil.endInstant

/-- **A timestamp is read or refused exactly within the calendar.** -/
theorem safe_timestamp {value : Val} : Safe (timestamp value) ↔ InCalendar value := by
  cases value with
  | str text =>
    have plain := Civil.plain_fromisoformat (replaceZ text)
    unfold timestamp InCalendar
    dsimp only
    cases parsed : Civil.fromisoformat (replaceZ text) with
    | error e =>
      rw [parsed] at plain
      have caught : tryExcept (.error e : Except Exc Civil.Stamp) [.valueError]
          (fun _ => raise returnRefusal "invalid timestamp") =
            raise returnRefusal "invalid timestamp" := if_pos (plain e rfl)
      rw [caught]
      refine ⟨fun _ text' stamp offset same ran => ?_, fun _ => safe_refuse _⟩
      obtain rfl := Val.str.inj same
      rw [parsed] at ran
      cases ran
    | ok stamp =>
      simp only [tryExcept, bind, Except.bind]
      cases zone : stamp.offset with
      | none =>
        refine ⟨fun _ text' stamp' offset same ran zone' => ?_, fun _ => safe_refuse _⟩
        obtain rfl := Val.str.inj same
        rw [parsed] at ran
        rw [← Except.ok.inj ran, zone] at zone'
        cases zone'
      | some offset =>
        dsimp only
        unfold Civil.toUtc
        rw [Safe, contained_ite]
        constructor
        · rintro ⟨-, out⟩ text' stamp' offset' same ran zone'
          obtain rfl := Val.str.inj same
          rw [parsed] at ran
          obtain rfl := Except.ok.inj ran
          obtain rfl := Option.some.inj (zone.symm.trans zone')
          by_contra outside
          have caught := contained_raise.mp (out outside)
          revert caught
          decide
        · intro inside
          refine ⟨fun _ => contained_ok _, fun outside => ?_⟩
          exact absurd (inside text stamp offset rfl parsed zone) outside
  | _ =>
    refine ⟨fun _ _ _ _ same => ?_, fun _ => safe_refuse _⟩
    cases same

/-- A comparison of numbers that are not NaN. -/
def Ordered (a b : Decimal) : Prop := ¬ (a.isNan = true ∨ b.isNan = true)

theorem returns_le (a b : Decimal) : Safe (a.le b) ↔ Returns (a.le b) := by
  unfold Decimal.le
  exact returns_ite (returns_raise rfl) (returns_ok _)

theorem returns_lt (a b : Decimal) : Safe (a.lt b) ↔ Returns (a.lt b) := by
  unfold Decimal.lt
  exact returns_ite (returns_raise rfl) (returns_ok _)

theorem returns_eq (a b : Decimal) : Safe (a.eq b) ↔ Returns (a.eq b) := by
  unfold Decimal.eq
  exact returns_ite (returns_raise rfl) (returns_ok _)

theorem le_returns {a b : Decimal} : Returns (a.le b) ↔ Ordered a b := by
  unfold Returns Decimal.le Ordered
  split_ifs with nan <;> simp [nan, raise]

theorem lt_returns {a b : Decimal} : Returns (a.lt b) ↔ Ordered a b := by
  unfold Returns Decimal.lt Ordered
  split_ifs with nan <;> simp [nan, raise]

/-- The comparisons reached, one after another, have results. -/
def Compared (test : Decimal → Decimal → Except Exc Bool) : List (Decimal × Decimal) → Prop
  | [] => True
  | (a, b) :: rest => Returns (test a b) ∧ (test a b = .ok true → Compared test rest)

theorem safe_inTurn {test : Decimal → Decimal → Except Exc Bool}
    (returns : ∀ a b, Safe (test a b) ↔ Returns (test a b)) {pairs : List (Decimal × Decimal)} :
    Safe (inTurn test pairs) ↔ Compared test pairs := by
  induction pairs with
  | nil => exact ⟨fun _ => trivial, fun _ => contained_ok _⟩
  | cons pair rest ih =>
    obtain ⟨a, b⟩ := pair
    rw [inTurn, Compared, safe_seq]
    constructor
    · rintro ⟨first, next⟩
      exact ⟨(returns a b).mp first, fun holds => ih.mp (next true holds)⟩
    · rintro ⟨first, next⟩
      refine ⟨(returns a b).mpr first, fun holds ran => ?_⟩
      cases holds with
      | true => exact ih.mpr (next ran)
      | false => exact contained_ok _

/-- Comparisons that all hold are of numbers that are not NaN. -/
theorem inTurn_forall {test : Decimal → Decimal → Except Exc Bool}
    {pairs : List (Decimal × Decimal)} (h : inTurn test pairs = .ok true) :
    ∀ pair ∈ pairs, test pair.1 pair.2 = .ok true := by
  induction pairs with
  | nil => exact fun _ mem => by cases mem
  | cons pair rest ih =>
    obtain ⟨a, b⟩ := pair
    rw [inTurn] at h
    obtain ⟨holds, first, h⟩ := bind_eq_ok.mp h
    cases holds with
    | false => cases h
    | true =>
      intro other mem
      rcases List.mem_cons.mp mem with rfl | mem
      · exact first
      · exact ih h other mem

/-- The value can be iterated over. -/
def Iterable (value : Val) : Prop := Returns value.iter

theorem returns_iter (value : Val) : Safe value.iter ↔ Iterable value := by
  cases value with
  | list items => exact returns_ok _
  | dict entries => exact returns_ok _
  | str text => exact returns_ok _
  | _ => exact returns_raise rfl

/-- Every element that a comprehension reaches has the shape. -/
def EachReached {α β : Type} (f : α → Except Exc β) (shape : α → Prop) (items : List α) : Prop :=
  ∀ before item after results, items = before ++ item :: after → mapE f before = .ok results →
    shape item

theorem safe_mapE {α β : Type} {f : α → Except Exc β} {shape : α → Prop}
    (safe : ∀ item, Safe (f item) ↔ shape item) {items : List α} :
    Safe (mapE f items) ↔ EachReached f shape items := by
  rw [Safe, contained_mapE]
  constructor
  · intro h before item after results split ran
    exact (safe item).mp (h before item after results split ran)
  · intro h before item after results split ran
    exact (safe item).mpr (h before item after results split ran)

/-! ## Input -/

/-- The members of a set, and of a sorted list. -/
def Sortable (items : List Val) : Prop :=
  items.all Val.hashable = true ∧ items.all (fun a => items.all fun b => comparable a b) = true

theorem returns_sortsToItself {items : List Val} :
    Safe (sortsToItself items) ↔ Returns (sortsToItself items) := by
  unfold sortsToItself
  exact returns_ite (returns_raise rfl) (returns_ite (returns_raise rfl) (returns_ok _))

theorem sortsToItself_returns {items : List Val} :
    Returns (sortsToItself items) ↔ Sortable items := by
  unfold Returns sortsToItself Sortable
  split_ifs with hashable sorted
  · rw [hashable]
    simp [raise]
  · rw [sorted]
    simp [raise]
  · simp [Bool.eq_true_of_not_eq_false hashable, Bool.eq_true_of_not_eq_false sorted]

/-- A list of books is of members of a set that sort. -/
def BooksShape (event : RawEvent) : Prop := ∀ items, event.books = .list items → Sortable items

theorem safe_checkBooks {event : RawEvent} : Safe (checkBooks event) ↔ BooksShape event := by
  unfold checkBooks BooksShape
  cases event.books with
  | list items =>
    dsimp only
    rw [returns_bind returns_sortsToItself]
    constructor
    · rintro ⟨sorted, ran, -⟩ items' same
      obtain rfl := Val.list.inj same
      exact sortsToItself_returns.mp ⟨sorted, ran⟩
    · intro shape
      obtain ⟨sorted, ran⟩ := sortsToItself_returns.mpr (shape items rfl)
      exact ⟨sorted, ran, safe_require _⟩
  | _ =>
    refine ⟨fun _ items same => ?_, fun _ => safe_refuse _⟩
    cases same

theorem safe_checkKey (event : RawEvent) : Safe (checkKey event) := by
  unfold checkKey
  cases event.physicalEventKey with
  | str text => exact safe_require _
  | _ => exact safe_refuse _

theorem safe_readDirection {event : RawEvent} :
    Safe (readDirection event) ↔ event.direction.hashable = true := by
  unfold readDirection
  rw [Safe, contained_ite]
  constructor
  · rintro ⟨unhashable, -⟩
    by_contra h
    have caught := contained_raise.mp (unhashable (Bool.eq_false_of_not_eq_true h))
    cases caught
  · intro hashable
    refine ⟨fun unhashable => ?_, fun _ => contained_ite.mpr ⟨fun _ => contained_ok _, fun _ => ?_⟩⟩
    · rw [hashable] at unhashable
      cases unhashable
    · exact contained_ite.mpr ⟨fun _ => contained_ok _, fun _ => safe_refuse _⟩

/-- Both times, the second where the first is read. -/
def SpanShape (event : RawEvent) : Prop :=
  InCalendar event.entryAt ∧ (Returns (timestamp event.entryAt) → InCalendar event.horizonAt)

theorem safe_readSpan {event : RawEvent} : Safe (readSpan event) ↔ SpanShape event := by
  unfold readSpan SpanShape
  rw [safe_seq]
  refine and_congr safe_timestamp ?_
  constructor
  · rintro h ⟨entryAt, ran⟩
    exact safe_timestamp.mp (contained_bind.mp (h entryAt ran)).1
  · intro h entryAt ran
    refine contained_bind.mpr ⟨safe_timestamp.mpr (h ⟨entryAt, ran⟩), fun horizonAt _ => ?_⟩
    exact safe_require_bind.mpr fun _ => contained_ok _

/-- An inventory of times: every one of them reached lies in the calendar. -/
def TimesShape (values : Val) : Prop :=
  ∃ items, values.iter = .ok items ∧ EachReached timestamp InCalendar items

theorem safe_timestamps {values : Val} : Safe (timestamps values) ↔ TimesShape values := by
  unfold timestamps TimesShape
  rw [returns_bind (returns_iter values)]
  constructor
  · rintro ⟨items, ran, safe⟩
    exact ⟨items, ran, (safe_mapE fun _ => safe_timestamp).mp safe⟩
  · rintro ⟨items, ran, shape⟩
    exact ⟨items, ran, (safe_mapE fun _ => safe_timestamp).mpr shape⟩

theorem safe_readStarts {event : RawEvent} {span : Span} :
    Safe (readStarts event span) ↔ TimesShape event.expectedH1Starts := by
  unfold readStarts
  rw [safe_seq]
  refine Iff.trans ⟨fun h => h.1, fun h => ⟨h, fun _ _ => ?_⟩⟩ safe_timestamps
  exact safe_require_bind.mpr fun _ => safe_require_bind.mpr fun _ => contained_ok _

theorem safe_readCompletions {event : RawEvent} {span : Span} {starts : List Instant} :
    Safe (readCompletions event span starts) ↔ TimesShape event.dCompletions := by
  unfold readCompletions
  rw [safe_seq]
  refine Iff.trans ⟨fun h => h.1, fun h => ⟨h, fun _ _ => ?_⟩⟩ safe_timestamps
  exact safe_require_bind.mpr fun _ => safe_require_bind.mpr fun _ => contained_ok _

theorem safe_barOf {row : Val} : Safe (barOf row) ↔ InCalendar (field row "start") := by
  unfold barOf
  rw [safe_seq]
  refine Iff.trans ⟨fun h => h.1, fun h => ⟨h, fun _ _ => ?_⟩⟩ safe_timestamp
  iterate 8 refine contained_bind.mpr ⟨safe_decimal _, fun _ _ => ?_⟩
  exact contained_ok _

/-- A row with the fields of a bar starts within the calendar, and its numbers compare. -/
def BarShape (row : Val) : Prop :=
  hasFields row h1Fields = true → sealedRow row = true →
    InCalendar (field row "start") ∧
    ∀ bar, barOf row = .ok bar → Compared Decimal.le bar.ranges ∧
      (inTurn Decimal.le bar.ranges = .ok true → Compared Decimal.le bar.sides)

theorem safe_validateBar (row : Val) : Safe (validateBar row) ↔ BarShape row := by
  unfold validateBar BarShape exactFields
  rw [safe_require_bind]
  refine imp_congr_right fun _ => ?_
  rw [safe_require_bind]
  refine imp_congr_right fun _ => ?_
  rw [safe_seq]
  refine and_congr safe_barOf (forall_congr' fun bar => imp_congr_right fun _ => ?_)
  rw [safe_seq]
  refine and_congr (safe_inTurn returns_le) ?_
  constructor
  · intro h passed
    exact (safe_inTurn returns_le).mp
      (contained_bind.mp (safe_require_bind.mp (h true passed) rfl)).1
  · intro h ordered ran
    refine safe_require_bind.mpr fun passed => ?_
    rw [passed] at ran
    refine contained_bind.mpr ⟨(safe_inTurn returns_le).mpr (h ran), fun _ _ => ?_⟩
    exact safe_require_bind.mpr fun _ => contained_ok _

/-- The bars: every row reached has the shape of one. -/
def BarsShape (event : RawEvent) : Prop :=
  ∃ rows, event.h1.iter = .ok rows ∧ EachReached validateBar BarShape rows

theorem safe_readBars {event : RawEvent} {starts : List Instant} :
    Safe (readBars event starts) ↔ BarsShape event := by
  unfold readBars BarsShape
  rw [returns_bind (returns_iter event.h1)]
  refine exists_congr fun rows => and_congr_right fun _ => ?_
  rw [safe_seq]
  refine Iff.trans ⟨fun h => h.1, fun h => ⟨h, fun _ _ => ?_⟩⟩ (safe_mapE safe_validateBar)
  exact safe_require_bind.mpr fun _ => contained_ok _

/-- The input of an event, part after part. -/
def InputShape (event : RawEvent) : Prop :=
  checkKey event = .ok () → BooksShape event ∧
    (checkBooks event = .ok () → event.direction.hashable = true ∧
      (Returns (readDirection event) → SpanShape event ∧
        ∀ span, readSpan event = .ok span → TimesShape event.expectedH1Starts ∧
          ∀ starts, readStarts event span = .ok starts → TimesShape event.dCompletions ∧
            (Returns (readCompletions event span starts) → BarsShape event)))

/-- **The input is read or refused exactly in this shape.** -/
theorem safe_eventInput {event : RawEvent} : Safe (eventInput event) ↔ InputShape event := by
  unfold eventInput InputShape
  rw [safe_bind (safe_checkKey event)]
  refine ⟨fun h ran => ?_, fun h u ran => ?_⟩
  · obtain ⟨books, h⟩ := contained_bind.mp (h () ran)
    refine ⟨safe_checkBooks.mp books, fun ran => ?_⟩
    obtain ⟨direction, h⟩ := contained_bind.mp (h () ran)
    refine ⟨safe_readDirection.mp direction, fun ⟨_, ran⟩ => ?_⟩
    obtain ⟨span, h⟩ := contained_bind.mp (h _ ran)
    refine ⟨safe_readSpan.mp span, fun span ran => ?_⟩
    obtain ⟨starts, h⟩ := contained_bind.mp (h _ ran)
    refine ⟨safe_readStarts.mp starts, fun starts ran => ?_⟩
    obtain ⟨completions, h⟩ := contained_bind.mp (h _ ran)
    refine ⟨safe_readCompletions.mp completions, fun ⟨_, ran⟩ => ?_⟩
    exact safe_readBars.mp (contained_bind.mp (h _ ran)).1
  · obtain ⟨books, h⟩ := h ran
    refine contained_bind.mpr ⟨safe_checkBooks.mpr books, fun u ran => ?_⟩
    obtain ⟨direction, h⟩ := h ran
    refine contained_bind.mpr ⟨safe_readDirection.mpr direction, fun _ ran => ?_⟩
    obtain ⟨span, h⟩ := h ⟨_, ran⟩
    refine contained_bind.mpr ⟨safe_readSpan.mpr span, fun _ ran => ?_⟩
    obtain ⟨starts, h⟩ := h _ ran
    refine contained_bind.mpr ⟨safe_readStarts.mpr starts, fun _ ran => ?_⟩
    obtain ⟨completions, h⟩ := h _ ran
    refine contained_bind.mpr ⟨safe_readCompletions.mpr completions, fun _ ran => ?_⟩
    exact contained_bind.mpr ⟨safe_readBars.mpr (h ⟨_, ran⟩), fun _ _ => contained_ok _⟩

theorem safe_readPrices (event : RawEvent) : Safe (readPrices event) := by
  unfold readPrices
  iterate 4 refine contained_bind.mpr ⟨safe_decimal _, fun _ _ => ?_⟩
  exact contained_ok _

/-- The entry and the levels, against the first bar. -/
def EntryShape (input : Input) (prices : Prices) : Prop :=
  ∀ first rest, input.bars = first :: rest →
    Compared Decimal.eq [(first.bidOpen, prices.entryBid), (first.askOpen, prices.entryAsk)] ∧
    (inTurn Decimal.eq [(first.bidOpen, prices.entryBid), (first.askOpen, prices.entryAsk)] =
        .ok true → Compared Decimal.lt (prices.geometry input.direction) ∧
      (inTurn Decimal.lt (prices.geometry input.direction) = .ok true →
        Compared Decimal.lt (prices.fill input.direction)))

/-- A comparison that is required to hold, and what follows it. -/
theorem safe_inTurn_require {test : Decimal → Decimal → Except Exc Bool} {α : Type}
    (returns : ∀ a b, Safe (test a b) ↔ Returns (test a b)) {pairs : List (Decimal × Decimal)}
    {message : String} {rest : Unit → Except Exc α} :
    Safe (inTurn test pairs >>= fun holds => require (holds = true) message >>= rest) ↔
      Compared test pairs ∧ (inTurn test pairs = .ok true → Safe (rest ())) := by
  rw [safe_seq]
  refine and_congr (safe_inTurn returns) ?_
  constructor
  · exact fun h ran => safe_require_bind.mp (h true ran) rfl
  · intro h holds ran
    refine safe_require_bind.mpr fun passed => ?_
    rw [passed] at ran
    exact h ran

theorem safe_checkEntry {input : Input} {prices : Prices} (some_ : input.bars ≠ []) :
    Safe (checkEntry input prices) ↔ EntryShape input prices := by
  unfold checkEntry EntryShape
  cases bars : input.bars with
  | nil => exact absurd bars some_
  | cons first rest =>
    dsimp only
    have last : ∀ message, Safe (inTurn Decimal.lt (prices.fill input.direction) >>= fun holds =>
        require (holds = true) message) ↔ Compared Decimal.lt (prices.fill input.direction) := by
      intro message
      rw [safe_seq, ← safe_inTurn returns_lt]
      exact ⟨fun h => h.1, fun h => ⟨h, fun _ _ => safe_require _⟩⟩
    rw [safe_inTurn_require returns_eq, safe_inTurn_require returns_lt, last]
    constructor
    · intro h first' rest' same
      obtain ⟨rfl, -⟩ := List.cons.inj same
      exact h
    · exact fun h => h first rest rfl

/-! ## What the checks establish -/

theorem Ordered.of_le {a b : Decimal} (h : a.le b = .ok true) : Ordered a b :=
  le_returns.mp ⟨_, h⟩

theorem Ordered.of_lt {a b : Decimal} (h : a.lt b = .ok true) : Ordered a b :=
  lt_returns.mp ⟨_, h⟩

/-- The numbers of a validated bar are not NaN. -/
theorem validateBar_ordered {row : Val} {bar : Bar} (h : validateBar row = .ok bar) :
    ∀ pair ∈ bar.ranges, Ordered pair.1 pair.2 := by
  obtain ⟨_, -, h⟩ := bind_eq_ok.mp h
  obtain ⟨_, -, h⟩ := bind_eq_ok.mp h
  obtain ⟨bar', -, h⟩ := bind_eq_ok.mp h
  obtain ⟨ordered, ran, h⟩ := bind_eq_ok.mp h
  obtain ⟨_, passed, h⟩ := bind_eq_ok.mp h
  obtain ⟨_, -, h⟩ := bind_eq_ok.mp h
  obtain ⟨_, -, h⟩ := bind_eq_ok.mp h
  obtain rfl := Except.ok.inj h
  rw [require_eq_ok.mp passed] at ran
  exact fun pair mem => .of_le (inTurn_forall ran pair mem)

/-- The bars of the input are validated, and there is one. -/
structure Validated (input : Input) : Prop where
  some : input.bars ≠ []
  bars : ∀ bar ∈ input.bars, ∃ row, validateBar row = .ok bar

theorem eventInput_validated {event : RawEvent} {input : Input}
    (h : eventInput event = .ok input) : Validated input := by
  obtain ⟨_, -, h⟩ := bind_eq_ok.mp h
  obtain ⟨_, -, h⟩ := bind_eq_ok.mp h
  obtain ⟨_, -, h⟩ := bind_eq_ok.mp h
  obtain ⟨span, -, h⟩ := bind_eq_ok.mp h
  obtain ⟨starts, readStarts_, h⟩ := bind_eq_ok.mp h
  obtain ⟨_, -, h⟩ := bind_eq_ok.mp h
  obtain ⟨bars, readBars_, h⟩ := bind_eq_ok.mp h
  obtain rfl := Except.ok.inj h
  obtain ⟨_, -, readStarts_⟩ := bind_eq_ok.mp readStarts_
  obtain ⟨_, inventory, readStarts_⟩ := bind_eq_ok.mp readStarts_
  obtain ⟨_, -, readStarts_⟩ := bind_eq_ok.mp readStarts_
  obtain rfl := Except.ok.inj readStarts_
  obtain ⟨rows, -, readBars_⟩ := bind_eq_ok.mp readBars_
  obtain ⟨_, mapped, readBars_⟩ := bind_eq_ok.mp readBars_
  obtain ⟨_, members, readBars_⟩ := bind_eq_ok.mp readBars_
  obtain rfl := Except.ok.inj readBars_
  refine ⟨fun none_ => ?_, fun bar mem => ?_⟩
  · dsimp only at none_
    have starts_ := require_eq_ok.mp members
    have head := (require_eq_ok.mp inventory).2
    rw [none_, List.map_nil] at starts_
    rw [← starts_] at head
    cases head
  · obtain ⟨row, -, validated⟩ := mem_mapE mapped mem
    exact ⟨row, validated⟩

/-- The stop and the target are not NaN. -/
structure Levels (prices : Prices) : Prop where
  stop : prices.stop.isNan = false
  target : prices.target.isNan = false

theorem checkEntry_levels {input : Input} {prices : Prices}
    (h : checkEntry input prices = .ok ()) : Levels prices := by
  unfold checkEntry at h
  cases bars : input.bars with
  | nil =>
    rw [bars] at h
    cases h
  | cons first rest =>
    rw [bars] at h
    obtain ⟨_, -, h⟩ := bind_eq_ok.mp h
    obtain ⟨_, -, h⟩ := bind_eq_ok.mp h
    obtain ⟨holds, ran, h⟩ := bind_eq_ok.mp h
    obtain ⟨_, passed, -⟩ := bind_eq_ok.mp h
    rw [require_eq_ok.mp passed] at ran
    have all := inTurn_forall ran
    have ordered : ∀ pair ∈ prices.geometry input.direction, Ordered pair.1 pair.2 :=
      fun pair mem => .of_lt (all pair mem)
    unfold Ordered at ordered
    cases direction : input.direction with
    | long =>
      rw [direction] at ordered
      have low := ordered _ List.mem_cons_self
      have high := ordered _ (List.mem_cons_of_mem _ List.mem_cons_self)
      exact ⟨by simpa using (not_or.mp low).1, by simpa using (not_or.mp high).2⟩
    | short =>
      rw [direction] at ordered
      have low := ordered _ List.mem_cons_self
      have high := ordered _ (List.mem_cons_of_mem _ List.mem_cons_self)
      exact ⟨by simpa using (not_or.mp high).2, by simpa using (not_or.mp low).1⟩

/-- What a validated bar touches is always found. -/
theorem touch_returns {row : Val} {bar : Bar} {prices : Prices}
    (validated : validateBar row = .ok bar) (levels : Levels prices) (direction : Direction) :
    Returns (touch prices bar direction) := by
  have ordered := validateBar_ordered validated
  have bidLow := ordered (bar.bidLow, bar.bidOpen) (by simp [Bar.ranges])
  have bidHigh := ordered (bar.bidOpen, bar.bidHigh) (by simp [Bar.ranges])
  have askLow := ordered (bar.askLow, bar.askOpen) (by simp [Bar.ranges])
  have askHigh := ordered (bar.askOpen, bar.askHigh) (by simp [Bar.ranges])
  obtain ⟨stop, target⟩ := levels
  unfold Ordered at *
  push Not at *
  cases direction with
  | long =>
    obtain ⟨a, ha⟩ := le_returns.mpr (show Ordered bar.bidLow prices.stop by
      simp [Ordered, bidLow.1, stop])
    obtain ⟨b, hb⟩ := le_returns.mpr (show Ordered prices.target bar.bidHigh by
      simp [Ordered, bidHigh.2, target])
    obtain ⟨c, hc⟩ := lt_returns.mpr (show Ordered bar.bidOpen prices.stop by
      simp [Ordered, bidLow.2, stop])
    exact ⟨_, bind_eq_ok.mpr ⟨a, ha, bind_eq_ok.mpr ⟨b, hb, bind_eq_ok.mpr ⟨c, hc, rfl⟩⟩⟩⟩
  | short =>
    obtain ⟨a, ha⟩ := le_returns.mpr (show Ordered prices.stop bar.askHigh by
      simp [Ordered, askHigh.2, stop])
    obtain ⟨b, hb⟩ := le_returns.mpr (show Ordered bar.askLow prices.target by
      simp [Ordered, askLow.1, target])
    obtain ⟨c, hc⟩ := lt_returns.mpr (show Ordered prices.stop bar.askOpen by
      simp [Ordered, askLow.2, stop])
    exact ⟨_, bind_eq_ok.mpr ⟨a, ha, bind_eq_ok.mpr ⟨b, hb, bind_eq_ok.mpr ⟨c, hc, rfl⟩⟩⟩⟩

/-! ## Arithmetic -/

theorem returns_round (value : ℚ) : Safe (context.round value) ↔ Returns (context.round value) := by
  unfold Context.round
  exact returns_ite (returns_ok _) (returns_raise rfl)

theorem returns_special {a b : Decimal} {otherwise : Except Exc Decimal}
    (returns : Safe otherwise ↔ Returns otherwise) :
    Safe (Context.special a b otherwise) ↔ Returns (Context.special a b otherwise) := by
  unfold Context.special
  exact returns_ite (returns_raise rfl) (returns_ite (returns_ok _) returns)

theorem returns_sub (a b : Decimal) : Safe (context.sub a b) ↔ Returns (context.sub a b) := by
  unfold Context.sub
  refine returns_special ?_
  split
  · exact returns_round _
  · exact returns_ite (returns_raise rfl) (returns_ok _)
  · exact returns_ok _
  · exact returns_ok _
  · exact returns_raise rfl

theorem returns_mul (a b : Decimal) : Safe (context.mul a b) ↔ Returns (context.mul a b) := by
  unfold Context.mul
  refine returns_special ?_
  split
  · exact returns_round _
  · exact returns_ok _
  · exact returns_ite (returns_raise rfl) (returns_ok _)
  · exact returns_ite (returns_raise rfl) (returns_ok _)
  · exact returns_raise rfl

theorem returns_div (a b : Decimal) : Safe (context.div a b) ↔ Returns (context.div a b) := by
  unfold Context.div
  refine returns_special ?_
  split
  · refine returns_ite ?_ (returns_round _)
    split_ifs
    · exact returns_raise rfl
    · exact returns_raise rfl
  · exact returns_raise rfl
  · exact returns_ok _
  · exact returns_ok _
  · exact returns_raise rfl

theorem returns_quantize (e : ℤ) (a : Decimal) :
    Safe (context.quantize e a) ↔ Returns (context.quantize e a) := by
  cases a with
  | finite value => exact returns_ite (returns_ok _) (returns_raise rfl)
  | infinity negative => exact returns_raise rfl
  | nan signaling => exact returns_ite (returns_raise rfl) (returns_ok _)

theorem returns_normalize (a : Decimal) :
    Safe (context.normalize a) ↔ Returns (context.normalize a) := by
  cases a with
  | finite value => exact returns_round value
  | infinity negative => exact returns_ok _
  | nan signaling => exact returns_ite (returns_raise rfl) (returns_ok _)

theorem returns_renderedMoney (a : Decimal) :
    Safe (renderedMoney a) ↔ Returns (renderedMoney a) := by
  unfold renderedMoney
  rw [returns_bind (returns_quantize _ a)]
  constructor
  · rintro ⟨value, ran, safe⟩
    obtain ⟨result, ran'⟩ := (returns_normalize value).mp safe
    exact ⟨result, bind_eq_ok.mpr ⟨value, ran, ran'⟩⟩
  · rintro ⟨result, ran⟩
    obtain ⟨value, ran, ran'⟩ := bind_eq_ok.mp ran
    exact ⟨value, ran, (returns_normalize value).mpr ⟨result, ran'⟩⟩

/-! ## Conversion -/

theorem returns_legStep (rate midpoint : Decimal) (direction : RouteDirection) :
    Safe (legStep rate midpoint direction) ↔ Returns (legStep rate midpoint direction) := by
  cases direction with
  | multiply => exact returns_mul _ _
  | divide => exact returns_div _ _

/-- A leg of the route, where it is reached at a rate: its time lies in the calendar, its midpoint is
not NaN, and the rate it makes is within the context. -/
def LegShape (asOf : Instant) (rate : Decimal) (row : Val × String × RouteDirection) : Prop :=
  hasFields row.1 legFields = true →
  (field row.1 "pair").isStr row.2.1 = true ∧
    (field row.1 "direction").isStr (routeText row.2.2) = true →
  sealedRow row.1 = true →
    InCalendar (field row.1 "completed_at") ∧
    ∀ completedAt, timestamp (field row.1 "completed_at") = .ok completedAt → completedAt < asOf →
      ∀ midpoint, decimal (field row.1 "midpoint_close") = .ok midpoint →
        Ordered (.finite 0) midpoint ∧
        ((Decimal.finite 0).lt midpoint = .ok true → Returns (legStep rate midpoint row.2.2))

theorem safe_legRate {asOf : Instant} {rate : Decimal} {row : Val × String × RouteDirection} :
    Safe (legRate asOf rate row) ↔ LegShape asOf rate row := by
  obtain ⟨leg, pair, direction⟩ := row
  unfold legRate LegShape exactFields
  rw [safe_require_bind]
  refine imp_congr_right fun _ => ?_
  rw [safe_require_bind]
  refine imp_congr_right fun _ => ?_
  rw [safe_require_bind]
  refine imp_congr_right fun _ => ?_
  rw [safe_seq]
  refine and_congr safe_timestamp (forall_congr' fun completedAt => imp_congr_right fun _ => ?_)
  rw [safe_require_bind]
  refine imp_congr_right fun _ => ?_
  rw [safe_bind (safe_decimal _)]
  refine forall_congr' fun midpoint => imp_congr_right fun _ => ?_
  rw [safe_seq]
  refine and_congr ((returns_lt _ _).trans lt_returns) ?_
  rw [← returns_legStep rate midpoint direction]
  constructor
  · exact fun h ran => safe_require_bind.mp (h true ran) rfl
  · intro h positive ran
    refine safe_require_bind.mpr fun passed => ?_
    rw [passed] at ran
    exact h ran

/-- The legs of a route: a sized value whose members reached are legs. -/
def RouteShape (asOf : Instant) (expected : List (String × RouteDirection)) (legs : Val) : Prop :=
  ∃ count, len legs = .ok count ∧ (count = expected.length →
    ∃ items, legs.iter = .ok items ∧
      ∀ before row after rate, items.zip expected = before ++ row :: after →
        before.foldlM (legRate asOf) (.finite 1) = .ok rate → LegShape asOf rate row)

theorem returns_len (value : Val) : Safe (len value) ↔ Returns (len value) := by
  cases value with
  | list items => exact returns_ok _
  | dict entries => exact returns_ok _
  | str text => exact returns_ok _
  | _ => exact returns_raise rfl

/-- Evidence of a conversion, as far as its currency and its time agree. -/
def EvidenceShape (evidence : Val) (currency : String) (asOf : Instant) : Prop :=
  hasFields evidence ["currency", "as_of", "legs"] = true →
  (field evidence "currency").isStr currency = true →
    InCalendar (field evidence "as_of") ∧
    (timestamp (field evidence "as_of") = .ok asOf →
      ∀ expected, cadRoutes.lookup currency = some expected →
        RouteShape asOf expected (field evidence "legs"))

theorem safe_conversionRate {evidence : Val} {currency : String} {asOf : Instant} :
    Safe (conversionRate evidence currency asOf) ↔ EvidenceShape evidence currency asOf := by
  unfold conversionRate EvidenceShape exactFields
  rw [safe_require_bind]
  refine imp_congr_right fun _ => ?_
  rw [safe_require_bind]
  refine imp_congr_right fun _ => ?_
  rw [safe_seq]
  refine and_congr safe_timestamp ?_
  have route : ∀ expected, Safe (len (field evidence "legs") >>= fun count =>
      require (count = expected.length) "conversion route length mismatch" >>= fun _ =>
        (field evidence "legs").iter >>= fun legs =>
          (legs.zip expected).foldlM (legRate asOf) (.finite 1)) ↔
      RouteShape asOf expected (field evidence "legs") := by
    intro expected
    unfold RouteShape
    rw [returns_bind (returns_len _)]
    refine exists_congr fun count => and_congr_right fun _ => ?_
    rw [safe_require_bind]
    refine imp_congr_right fun _ => ?_
    rw [returns_bind (returns_iter _)]
    refine exists_congr fun items => and_congr_right fun _ => ?_
    rw [Safe, contained_foldlM]
    refine forall_congr' fun before => forall_congr' fun row => forall_congr' fun after =>
      forall_congr' fun rate => imp_congr_right fun _ => imp_congr_right fun _ => safe_legRate
  cases routes : cadRoutes.lookup currency with
  | none =>
    refine ⟨fun _ _ expected same => ?_, fun _ decided _ => ?_⟩
    · cases same
    · exact safe_require_bind.mpr fun _ => safe_refuse _
  | some expected =>
    constructor
    · intro h ran expected' same
      obtain rfl := Option.some.inj same
      exact (route expected).mp (safe_require_bind.mp (h asOf ran) rfl)
    · intro h decided ran
      refine safe_require_bind.mpr fun same => ?_
      rw [same] at ran
      exact (route expected).mpr (h ran expected rfl)

/-- The conversion of an exit: a text for the instrument, a mapping of evidence, and the evidence of
the time of the exit. -/
def ConversionShape (event : RawEvent) (when_ : Instant) : Prop :=
  (∃ text, event.instrument = .str text) ∧
  ∀ quote, pairQuote event.instrument = .ok quote →
    ∃ evidence, event.conversion.get (Civil.isoformat when_) = .ok evidence ∧
      (evidence ≠ .none → EvidenceShape evidence quote when_)

theorem safe_pairQuote {instrument : Val} :
    Safe (pairQuote instrument) ↔ ∃ text, instrument = .str text := by
  cases instrument with
  | str text =>
    refine ⟨fun _ => ⟨text, rfl⟩, fun _ => ?_⟩
    unfold pairQuote
    dsimp only
    split
    · exact safe_require_bind.mpr fun _ => contained_ok _
    · exact safe_refuse _
  | _ =>
    constructor
    · intro safe
      have caught := contained_raise.mp safe
      cases caught
    · rintro ⟨text, same⟩
      cases same

theorem returns_get (value : Val) (key : String) :
    Safe (value.get key) ↔ Returns (value.get key) := by
  cases value with
  | dict entries => exact returns_ok _
  | _ => exact returns_raise rfl

theorem safe_exitConversion {event : RawEvent} {when_ : Instant} :
    Safe (exitConversion event when_) ↔ ConversionShape event when_ := by
  unfold exitConversion ConversionShape
  rw [safe_seq]
  refine and_congr safe_pairQuote (forall_congr' fun quote => imp_congr_right fun _ => ?_)
  rw [returns_bind (returns_get _ _)]
  refine exists_congr fun evidence => and_congr_right fun _ => ?_
  cases evidence with
  | none => exact ⟨fun _ other => absurd rfl other, fun _ => safe_refuse _⟩
  | _ => exact ⟨fun safe _ => safe_conversionRate.mp safe,
      fun shape => safe_conversionRate.mpr (shape (by simp))⟩

/-! ## The walk -/

/-- A member of the daily rows: a mapping with a time, which lies in the calendar. -/
def DailyShape (row : Val) : Prop :=
  ∃ completed, row.getItem "completed_at" = .ok completed ∧ InCalendar completed

theorem returns_getItem (row : Val) (key : String) :
    Safe (row.getItem key) ↔ Returns (row.getItem key) := by
  cases row with
  | dict entries =>
    unfold Val.getItem
    dsimp only
    cases entries.lookup key with
    | some item => exact returns_ok _
    | none => exact returns_raise rfl
  | _ => exact returns_raise rfl

theorem safe_dailyRow (row : Val) : Safe (dailyRow row) ↔ DailyShape row := by
  unfold dailyRow DailyShape
  rw [returns_bind (returns_getItem _ _)]
  refine exists_congr fun completed => and_congr_right fun _ => ?_
  rw [safe_seq]
  exact Iff.trans ⟨fun h => h.1, fun h => ⟨h, fun _ _ => contained_ok _⟩⟩ safe_timestamp

theorem returns_breaks (swing close : Decimal) (direction : Direction) :
    Safe (breaks swing close direction) ↔ Returns (breaks swing close direction) := by
  cases direction with
  | long => exact returns_lt _ _
  | short => exact returns_lt _ _

/-- The closes reached, which compare with the swing. -/
def ClosesShape (direction : Direction) (swing : Decimal) (rows : List (Instant × Val)) :
    List Instant → Prop
  | [] => True
  | completed :: rest => ∀ row, rows.lookup completed = some row →
      hasFields row dailyFields = true → sealedRow row = true →
      ∀ close, decimal (field row "mid_close") = .ok close →
        Returns (breaks swing close direction) ∧
        (breaks swing close direction = .ok false → ClosesShape direction swing rows rest)

theorem safe_structureWalk {direction : Direction} {swing : Decimal} {rows : List (Instant × Val)}
    {completions : List Instant} :
    Safe (structureWalk direction swing rows completions) ↔
      ClosesShape direction swing rows completions := by
  induction completions with
  | nil => exact ⟨fun _ => trivial, fun _ => contained_ok _⟩
  | cons completed rest ih =>
    rw [structureWalk, ClosesShape]
    cases rows.lookup completed with
    | none =>
      refine ⟨fun _ row same => ?_, fun _ => safe_refuse _⟩
      cases same
    | some row =>
      unfold exactFields
      dsimp only
      rw [safe_require_bind, safe_require_bind, safe_bind (safe_decimal _)]
      have closes : ∀ close, Safe (breaks swing close direction >>= fun broken =>
          if broken = true then .ok true else structureWalk direction swing rows rest) ↔
          Returns (breaks swing close direction) ∧
            (breaks swing close direction = .ok false →
              ClosesShape direction swing rows rest) := by
        intro close
        rw [safe_seq, ← ih]
        refine and_congr (returns_breaks _ _ _) ⟨fun h ran => h false ran, fun h broken ran => ?_⟩
        cases broken with
        | true => exact contained_ok _
        | false => exact h ran
      constructor
      · intro h row' same fields sealed_ close ran
        obtain rfl := Option.some.inj same
        exact (closes close).mp (h fields sealed_ close ran)
      · intro h fields sealed_ close ran
        exact (closes close).mpr (h row rfl fields sealed_ close ran)

/-- The daily rows, where the swing is a number: members with a time, and closes that compare. -/
def StructureShape (event : RawEvent) (input : Input) (boundary : Instant) : Prop :=
  ∀ swing, decimal event.supportingSwing = .ok swing →
    ∃ members, event.daily.iter = .ok members ∧ EachReached dailyRow DailyShape members ∧
      ∀ rows, mapE dailyRow members = .ok rows → (rows.map Prod.fst).Nodup →
        ClosesShape input.direction swing rows
          (input.completions.filter fun value => input.span.entryAt < value ∧ value ≤ boundary)

theorem safe_structureDue {event : RawEvent} {input : Input} {boundary : Instant} :
    Safe (structureDue event input boundary) ↔ StructureShape event input boundary := by
  unfold structureDue StructureShape
  rw [safe_bind (safe_decimal _)]
  refine forall_congr' fun swing => imp_congr_right fun _ => ?_
  rw [returns_bind (returns_iter _)]
  refine exists_congr fun members => and_congr_right fun _ => ?_
  rw [safe_seq]
  refine and_congr (safe_mapE safe_dailyRow) ?_
  refine forall_congr' fun rows => imp_congr_right fun _ => ?_
  rw [safe_require_bind]
  exact imp_congr_right fun _ => safe_structureWalk

/-- An hour after the instant is still in the calendar. -/
def HourAfter (start : Instant) : Prop := Returns (Civil.shift start Civil.hour)

theorem returns_shift (instant delta : ℤ) :
    Safe (Civil.shift instant delta) ↔ Returns (Civil.shift instant delta) := by
  unfold Civil.shift
  exact returns_ite (returns_ok _) (returns_raise rfl)

/-- A bar of the walk: the daily rows of its time, and the hour after it where a level is touched and
neither structure nor horizon ends the position. -/
def TurnShape (event : RawEvent) (input : Input) (prices : Prices) (first : Bool) (bar : Bar) :
    Prop :=
  (first = false → StructureShape event input bar.start) ∧
  ∀ due, dueAt event input first bar = .ok due →
    ¬ (!first && (due || bar.start = input.span.horizonAt)) = true →
      ∀ t, touch prices bar input.direction = .ok t →
        t.stopTouch = true ∨ t.targetTouch = true → HourAfter bar.start

/-- The result of a shift, whatever it is for. -/
theorem safe_shift_bind {start : Instant} {exit : Instant → Exit ⊕ Bool} :
    Safe (Civil.shift start Civil.hour >>= fun exitAt => .ok (exit exitAt)) ↔ HourAfter start := by
  rw [safe_seq]
  refine Iff.trans ⟨fun h => h.1, fun h => ⟨h, fun _ _ => contained_ok _⟩⟩ (returns_shift _ _)

theorem safe_turn {event : RawEvent} {input : Input} {prices : Prices} {first ambiguity : Bool}
    {bar : Bar} (touches : Returns (touch prices bar input.direction)) :
    Safe (turn event input prices first ambiguity bar) ↔
      TurnShape event input prices first bar := by
  have due : Safe (dueAt event input first bar) ↔
      (first = false → StructureShape event input bar.start) := by
    unfold dueAt
    cases first with
    | true =>
      refine ⟨fun _ no => ?_, fun _ => contained_ok _⟩
      cases no
    | false => exact safe_structureDue.trans ⟨fun h _ => h, fun h => h rfl⟩
  obtain ⟨t, found⟩ := touches
  have reached : (∀ t', (Except.ok t : Except Exc Touch) = .ok t' →
      t'.stopTouch = true ∨ t'.targetTouch = true → HourAfter bar.start) ↔
      (t.stopTouch = true ∨ t.targetTouch = true → HourAfter bar.start) := by
    refine ⟨fun h => h t rfl, fun h t' same => ?_⟩
    rw [← Except.ok.inj same]
    exact h
  unfold turn TurnShape
  rw [safe_seq, ← due]
  refine and_congr_right fun _ => forall_congr' fun due => imp_congr_right fun _ => ?_
  by_cases ends : (!first && (due || bar.start = input.span.horizonAt)) = true
  · rw [if_pos ends]
    exact ⟨fun _ goes => absurd ends goes, fun _ => contained_ok _⟩
  rw [if_neg ends, found, reached, forall_prop_of_true ends]
  show Safe (if t.stopTouch = true then Civil.shift bar.start Civil.hour >>= _
    else if t.targetTouch = true then Civil.shift bar.start Civil.hour >>= _ else _) ↔ _
  by_cases stop : t.stopTouch = true
  · rw [if_pos stop]
    exact safe_shift_bind.trans ⟨fun h _ => h, fun h => h (Or.inl stop)⟩
  · rw [if_neg stop]
    by_cases target : t.targetTouch = true
    · rw [if_pos target]
      exact safe_shift_bind.trans ⟨fun h _ => h, fun h => h (Or.inr target)⟩
    · rw [if_neg target]
      exact ⟨fun _ touched => absurd touched (not_or.mpr ⟨stop, target⟩), fun _ => contained_ok _⟩

/-- The bars the walk reaches. -/
def WalkShape (event : RawEvent) (input : Input) (prices : Prices) :
    Bool → Bool → List Bar → Prop
  | _, _, [] => True
  | first, ambiguity, bar :: rest =>
    TurnShape event input prices first bar ∧
      ∀ both, turn event input prices first ambiguity bar = .ok (.inr both) →
        WalkShape event input prices false both rest

theorem safe_exitLoop {event : RawEvent} {input : Input} {prices : Prices} {bars : List Bar}
    (validated : ∀ bar ∈ bars, ∃ row, validateBar row = .ok bar) (levels : Levels prices)
    {first ambiguity : Bool} :
    Safe (exitLoop event input prices first ambiguity bars) ↔
      WalkShape event input prices first ambiguity bars := by
  induction bars generalizing first ambiguity with
  | nil => exact ⟨fun _ => trivial, fun _ => safe_refuse _⟩
  | cons bar rest ih =>
    obtain ⟨row, made⟩ := validated bar List.mem_cons_self
    have next := @ih fun bar mem => validated bar (List.mem_cons_of_mem _ mem)
    rw [exitLoop, WalkShape, safe_seq]
    refine and_congr (safe_turn (touch_returns made levels _)) ?_
    constructor
    · exact fun h both ran => next.mp (h (.inr both) ran)
    · intro h step ran
      cases step with
      | inl exit => exact contained_ok _
      | inr both => exact next.mpr (h both ran)

/-! ## The result -/

/-- The money of a result stays within the context. -/
def MoneyShape (entry exitPrice conversion risk : Decimal) (direction : Direction) : Prop :=
  ∃ quote, context.sub exitPrice entry = .ok quote ∧
    ∃ signedQuote, context.mul quote (.finite (sign direction)) = .ok signedQuote ∧
      ∃ gross, context.mul signedQuote conversion = .ok gross ∧
        ∃ r, context.div gross risk = .ok r ∧ Returns (context.normalize entry) ∧
          Returns (context.normalize conversion) ∧ Returns (context.normalize exitPrice) ∧
          Returns (renderedMoney gross) ∧ Returns (renderedMoney r) ∧
          Returns (context.normalize risk)

/-- The books are numbers of a JSON text, where they are numbers. -/
def BooksNumbers (event : RawEvent) : Prop :=
  ∀ items, event.books = .list items → items.all jsonNumber = true

/-- The conversion, the risk and the money of an exit. -/
def ResultShape (event : RawEvent) (input : Input) (prices : Prices) (exit : Exit) : Prop :=
  ConversionShape event exit.exitAt ∧
  ∀ conversion, exitConversion event exit.exitAt = .ok conversion →
    ∀ risk, decimal event.riskPerUnitCad = .ok risk →
      Ordered (.finite 0) risk ∧
      ((Decimal.finite 0).lt risk = .ok true →
        MoneyShape (prices.entry input.direction) exit.exitPrice conversion risk
          input.direction ∧ BooksNumbers event)

theorem safe_checkCanonical {event : RawEvent} :
    Safe (checkCanonical event) ↔ BooksNumbers event := by
  unfold checkCanonical BooksNumbers
  cases event.books with
  | list items =>
    dsimp only
    constructor
    · intro safe items' same
      obtain rfl := Val.list.inj same
      by_contra outside
      have caught := contained_raise.mp ((contained_ite.mp safe).2 outside)
      cases caught
    · intro numbers
      rw [if_pos (numbers items rfl)]
      exact contained_ok _
  | _ =>
    refine ⟨fun _ items same => ?_, fun _ => contained_ok _⟩
    cases same

/-- A step whose result the rest does not depend on. -/
theorem returns_skip {α β : Type} {x : Except Exc α} {f : α → Except Exc β} {shape : Prop}
    (uncaught : Safe x ↔ Returns x) (rest : ∀ a, Safe (f a) ↔ shape) :
    Safe (x >>= f) ↔ Returns x ∧ shape := by
  rw [returns_bind uncaught]
  constructor
  · rintro ⟨a, ran, safe⟩
    exact ⟨⟨a, ran⟩, (rest a).mp safe⟩
  · rintro ⟨⟨a, ran⟩, shape⟩
    exact ⟨a, ran, (rest a).mpr shape⟩

theorem safe_money {event : RawEvent} {entry exitPrice conversion risk : Decimal}
    {direction : Direction}
    {result : Decimal → Decimal → Decimal → Decimal → Decimal → Decimal → Resolved} :
    Safe (do
      let quote ← context.sub exitPrice entry
      let signedQuote ← context.mul quote (.finite (sign direction))
      let gross ← context.mul signedQuote conversion
      let r ← context.div gross risk
      let entryPrice ← context.normalize entry
      let conversionPrice ← context.normalize conversion
      let price ← context.normalize exitPrice
      let grossCadPerUnit ← renderedMoney gross
      let grossR ← renderedMoney r
      let riskPerUnitCad ← context.normalize risk
      checkCanonical event
      return result entryPrice conversionPrice price grossCadPerUnit grossR riskPerUnitCad) ↔
    MoneyShape entry exitPrice conversion risk direction ∧ BooksNumbers event := by
  unfold MoneyShape
  rw [returns_bind (returns_sub _ _), ← exists_and_right]
  refine exists_congr fun quote => ?_
  rw [and_assoc, returns_bind (returns_mul _ _), ← exists_and_right]
  refine and_congr_right fun _ => exists_congr fun signedQuote => ?_
  rw [and_assoc, returns_bind (returns_mul _ _), ← exists_and_right]
  refine and_congr_right fun _ => exists_congr fun gross => ?_
  rw [and_assoc, returns_bind (returns_div _ _), ← exists_and_right]
  refine and_congr_right fun _ => exists_congr fun r => ?_
  simp only [and_assoc]
  refine and_congr_right fun _ => returns_skip (returns_normalize _) fun _ => ?_
  refine returns_skip (returns_normalize _) fun _ => returns_skip (returns_normalize _) fun _ => ?_
  refine returns_skip (returns_renderedMoney _) fun _ => ?_
  refine returns_skip (returns_renderedMoney _) fun _ => ?_
  refine returns_skip (returns_normalize _) fun _ => ?_
  rw [safe_seq]
  exact Iff.trans ⟨fun h => h.1, fun h => ⟨h, fun _ _ => contained_ok _⟩⟩ safe_checkCanonical

theorem safe_resultOf {event : RawEvent} {input : Input} {prices : Prices} {exit : Exit} :
    Safe (resultOf event input prices exit) ↔ ResultShape event input prices exit := by
  unfold resultOf ResultShape
  rw [safe_seq]
  refine and_congr safe_exitConversion (forall_congr' fun conversion => imp_congr_right fun _ => ?_)
  rw [safe_bind (safe_decimal _)]
  refine forall_congr' fun risk => imp_congr_right fun _ => ?_
  rw [safe_seq]
  refine and_congr ((returns_lt _ _).trans lt_returns) ?_
  constructor
  · exact fun h ran => safe_money.mp (safe_require_bind.mp (h true ran) rfl)
  · intro h positive ran
    refine safe_require_bind.mpr fun passed => ?_
    rw [passed] at ran
    exact safe_money.mpr (h ran)

/-! ## The event -/

/-- **An event that is readable**: each part of it that is reached has its shape. -/
def Readable (event : RawEvent) : Prop :=
  InputShape event ∧
  ∀ input, eventInput event = .ok input → ∀ prices, readPrices event = .ok prices →
    EntryShape input prices ∧
    (checkEntry input prices = .ok () →
      WalkShape event input prices true false input.bars ∧
      ∀ exit, exitLoop event input prices true false input.bars = .ok exit →
        ResultShape event input prices exit)

theorem safe_resolveBody {event : RawEvent} : Safe (resolveBody event) ↔ Readable event := by
  unfold resolveBody Readable
  rw [safe_seq]
  refine and_congr safe_eventInput (forall_congr' fun input => forall_congr' fun ran => ?_)
  have validated := eventInput_validated ran
  rw [safe_bind (safe_readPrices event)]
  refine forall_congr' fun prices => imp_congr_right fun _ => ?_
  rw [safe_seq]
  refine and_congr (safe_checkEntry validated.some) ?_
  have rest : checkEntry input prices = .ok () →
      (Safe (exitLoop event input prices true false input.bars >>= resultOf event input prices) ↔
        WalkShape event input prices true false input.bars ∧
        ∀ exit, exitLoop event input prices true false input.bars = .ok exit →
          ResultShape event input prices exit) := by
    intro passed
    rw [safe_seq]
    refine and_congr (safe_exitLoop validated.bars (checkEntry_levels passed)) ?_
    exact forall_congr' fun exit => imp_congr_right fun _ => safe_resultOf
  exact ⟨fun h passed => (rest passed).mp (h () passed),
    fun h _ passed => (rest passed).mpr (h passed)⟩

/-- An event whose books hold a list. -/
def nestedBooks : RawEvent where
  physicalEventKey := .str "EVENT-1"
  books := .list [.list []]
  instrument := .str "USD_CAD"
  direction := .str "long"
  entryAt := .str "2025-01-06T00:00:00Z"
  horizonAt := .str "2025-01-20T00:00:00Z"
  entryBid := .str "1.3"
  entryAsk := .str "1.3002"
  stop := .str "1.29"
  target := .str "1.32"
  supportingSwing := .str "1.28"
  pipSize := .str "0.0001"
  riskPerUnitCad := .str "0.0102"
  expectedH1Starts := .list []
  dCompletions := .list []
  h1 := .list []
  daily := .list []
  conversion := .dict []
  rollovers := .list []
  marks := .list []

end TradeRecommender.Strategy.Intake
