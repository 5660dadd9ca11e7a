import Pullbackup.Library.Comparator
import Mathlib.Data.String.Basic

/- lib/taskSort.ts: the order of the task table. -/
namespace Pullbackup
open Comparator

structure SortableTask where
  id : Int
  remotePath : String
  taskType : String
  sourceId : Int
  cron : String
  enabled : Bool
  nextRun : Option String
  lastRunAt : Option String
  lastRunState : Option String
  deriving DecidableEq, Repr

structure NamedSource where
  id : Int
  name : String
  deriving DecidableEq, Repr

inductive SortColumn where
  | remotePath | type | source | frequency | nextRun | lastRun | enabled | state
  deriving DecidableEq, Repr

inductive SortDirection where
  | asc | desc
  deriving DecidableEq, Repr

structure SortPreference where
  column : SortColumn
  direction : SortDirection
  deriving DecidableEq, Repr

def SortDirection.sign : SortDirection → Int
  | .asc => 1
  | .desc => -1

def nextSort (current : Option SortPreference) (column : SortColumn) : SortPreference :=
  match current with
  | some current =>
    if current.column = column then
      ⟨column, if current.direction = .asc then .desc else .asc⟩
    else ⟨column, .asc⟩
  | none => ⟨column, .asc⟩

/-- What the language's runtime computes; dateParse is none for an invalid date. -/
structure Runtime where
  toLowerCase : String → String
  localeCompare : String → String → Int
  dateParse : String → Option Int

inductive Key where
  | text (value : String)
  | number (value : Int)
  deriving DecidableEq, Repr

def Key.string : Key → String
  | .text value => value
  | .number value => toString value

def typeLabel (t : SortableTask) : String := if t.taskType = "syncoid" then "zfs" else "rsync"

/-- HAS_TIMEZONE, read from the end of the text. -/
def hasTimezone (iso : String) : Bool :=
  let sign := fun c : Char => c = '+' || c = '-'
  match iso.toList.reverse with
  | 'Z' :: _ | 'z' :: _ => true
  | d :: c :: ':' :: b :: a :: s :: _ =>
    sign s && a.isDigit && b.isDigit && c.isDigit && d.isDigit
  | d :: c :: b :: a :: s :: _ => sign s && a.isDigit && b.isDigit && c.isDigit && d.isDigit
  | _ => false

section Source
variable (rt : Runtime)

def timestamp (iso : Option String) : Option Int :=
  match iso with
  | none => none
  | some iso =>
    if iso = "" then none
    else rt.dateParse (if hasTimezone iso then iso else iso ++ "Z")

def keyOf (t : SortableTask) (column : SortColumn) (sourceName : Int → Option String) :
    Option Key :=
  match column with
  | .remotePath => some (.text (rt.toLowerCase t.remotePath))
  | .type => some (.text (typeLabel t))
  | .source => (sourceName t.sourceId).map fun name => .text (rt.toLowerCase name)
  | .frequency => some (.text t.cron)
  | .nextRun => if t.enabled then (timestamp rt t.nextRun).map .number else none
  | .lastRun => (timestamp rt t.lastRunAt).map .number
  | .enabled => some (.number (if t.enabled then 0 else 1))
  | .state => t.lastRunState.map .text

def compareKeys : Option Key → Option Key → Int
  | none, none => 0
  | none, some _ => 1
  | some _, none => -1
  | some (.number a), some (.number b) => a - b
  | some a, some b => rt.localeCompare a.string b.string

def sourceName (sources : List NamedSource) (id : Int) : Option String :=
  (sources.reverse.find? fun s => s.id = id).map NamedSource.name

variable {T : Type} (fields : T → SortableTask)

/-- The key of a row, whatever else the row carries. -/
def rowKey (sources : List NamedSource) (column : SortColumn) (row : T) : Option Key :=
  keyOf rt (fields row) column (sourceName sources)

def compareRows (pref : SortPreference) (sources : List NamedSource) (a b : T) : Int :=
  let aKey := rowKey rt fields sources pref.column a
  let bKey := rowKey rt fields sources pref.column b
  let ordered := compareKeys rt aKey bKey
  if ordered ≠ 0 then
    if aKey.isNone || bKey.isNone then ordered else ordered * pref.direction.sign
  else (fields a).id - (fields b).id

def sortTasks (tasks : List T) (pref : Option SortPreference) (sources : List NamedSource) :
    List T :=
  match pref with
  | none => tasks
  | some pref => sort (compareRows rt fields pref sources) tasks

end Source

section Order
variable {rt : Runtime} {T : Type} {fields : T → SortableTask} {tasks : List T}
  {sources : List NamedSource} {column : SortColumn} {direction : SortDirection}

theorem SortDirection.unit (direction : SortDirection) :
    direction.sign = 1 ∨ direction.sign = -1 := by
  cases direction with
  | asc => exact Or.inl rfl
  | desc => exact Or.inr rfl

example : ["2026-09-10T03:00:00z", "2026-09-10T03:00:00+05:30", "2026-09-10T03:00:00-0530",
    "2026-09-10T03:00:00"].map hasTimezone = [true, true, true, false] := by decide +kernel

theorem rowKey_kind (rt : Runtime) (fields : T → SortableTask) (sources : List NamedSource)
    (column : SortColumn) :
    (∃ key : T → Option String, rowKey rt fields sources column = fun t => (key t).map .text) ∨
      ∃ key : T → Option Int, rowKey rt fields sources column = fun t => (key t).map .number := by
  cases column with
  | remotePath => exact Or.inl ⟨fun t => some (rt.toLowerCase (fields t).remotePath), rfl⟩
  | type => exact Or.inl ⟨fun t => some (typeLabel (fields t)), rfl⟩
  | source =>
    refine Or.inl ⟨fun t => (sourceName sources (fields t).sourceId).map rt.toLowerCase, ?_⟩
    funext t
    simp only [rowKey, keyOf, Option.map_map]
    rfl
  | frequency => exact Or.inl ⟨fun t => some (fields t).cron, rfl⟩
  | nextRun =>
    refine Or.inr ⟨fun t => if (fields t).enabled then timestamp rt (fields t).nextRun else none, ?_⟩
    funext t
    cases on : (fields t).enabled with
    | true => simp [rowKey, keyOf, on]
    | false => simp [rowKey, keyOf, on]
  | lastRun => exact Or.inr ⟨fun t => timestamp rt (fields t).lastRunAt, rfl⟩
  | enabled => exact Or.inr ⟨fun t => some (if (fields t).enabled then 0 else 1), rfl⟩
  | state => exact Or.inl ⟨fun t => (fields t).lastRunState, rfl⟩

theorem compareKeys_text (a b : Option String) :
    compareKeys rt (a.map .text) (b.map .text) = nullsLast rt.localeCompare a b := by
  cases a with
  | none => cases b <;> rfl
  | some a => cases b <;> rfl

theorem compareKeys_number (a b : Option Int) :
    compareKeys rt (a.map .number) (b.map .number) = nullsLast difference a b := by
  cases a with
  | none => cases b <;> rfl
  | some a => cases b <;> rfl

theorem compareRows_eq {α : Type} {cmp : α → α → Int} {key : T → Option α} {kind : α → Key}
    (keys : rowKey rt fields sources column = fun t => (key t).map kind)
    (compared : ∀ a b : Option α, compareKeys rt (a.map kind) (b.map kind) = nullsLast cmp a b)
    (direction : SortDirection) :
    compareRows rt fields ⟨column, direction⟩ sources =
      rowOrder cmp key (fun t => (fields t).id) direction.sign := by
  funext a b
  have known : compareKeys rt (rowKey rt fields sources column a)
      (rowKey rt fields sources column b) = byKey cmp key a b := by
    rw [keys]
    exact compared (key a) (key b)
  have signed : byKey (scaled direction.sign cmp) key a b =
      if (rowKey rt fields sources column a).isNone || (rowKey rt fields sources column b).isNone
      then byKey cmp key a b else byKey cmp key a b * direction.sign := by
    rw [keys]
    simp only [Option.isNone_map]
    exact nullsLast_scaled (key a) (key b)
  have zero : byKey (scaled direction.sign cmp) key a b = 0 ↔ byKey cmp key a b = 0 :=
    byKey_scaled_zero direction.unit
  simp only [compareRows, rowOrder, thenBy, known, ← signed, ne_eq, zero]
  rfl

/-- The keys of a column as values of one type, with the comparator they are compared by. -/
structure Column (rt : Runtime) (fields : T → SortableTask) (sources : List NamedSource)
    (column : SortColumn) {α : Type} (cmp : α → α → Int) (key : T → Option α) : Prop where
  lawful : Lawful cmp
  missing : ∀ t, rowKey rt fields sources column t = none ↔ key t = none
  compared : ∀ a b, compareKeys rt (rowKey rt fields sources column a)
    (rowKey rt fields sources column b) = byKey cmp key a b
  ordered : ∀ direction, compareRows rt fields ⟨column, direction⟩ sources =
    rowOrder cmp key (fun t => (fields t).id) direction.sign

theorem exists_column (preorder : Lawful rt.localeCompare) (fields : T → SortableTask)
    (sources : List NamedSource) (column : SortColumn) :
    ∃ (α : Type) (cmp : α → α → Int) (key : T → Option α),
      Column rt fields sources column cmp key := by
  rcases rowKey_kind rt fields sources column with ⟨key, keys⟩ | ⟨key, keys⟩
  · refine ⟨String, rt.localeCompare, key, preorder, ?_, ?_, compareRows_eq keys compareKeys_text⟩
    · intro t
      simp [keys]
    · intro a b
      rw [keys]
      exact compareKeys_text (key a) (key b)
  · refine ⟨Int, difference, key, lawful_difference, ?_, ?_, compareRows_eq keys compareKeys_number⟩
    · intro t
      simp [keys]
    · intro a b
      rw [keys]
      exact compareKeys_number (key a) (key b)

/-- Rows as the table shows them: those without a key last, the others by their keys in the
    direction, and rows with equal keys by their ids. -/
structure Shown (rt : Runtime) (fields : T → SortableTask) (sources : List NamedSource)
    (pref : SortPreference) (rows : List T) : Prop where
  nullsLast : rows.Pairwise fun a b =>
    rowKey rt fields sources pref.column a = none → rowKey rt fields sources pref.column b = none
  keyed : rows.Pairwise fun a b =>
    rowKey rt fields sources pref.column a ≠ none → rowKey rt fields sources pref.column b ≠ none →
      compareKeys rt (rowKey rt fields sources pref.column a)
        (rowKey rt fields sources pref.column b) * pref.direction.sign ≤ 0
  ties : rows.Pairwise fun a b =>
    compareKeys rt (rowKey rt fields sources pref.column a)
      (rowKey rt fields sources pref.column b) = 0 → (fields a).id < (fields b).id

/-- The groups of equal keys of a column, in ascending order. -/
structure KeyGroups (rt : Runtime) (fields : T → SortableTask) (sources : List NamedSource)
    (column : SortColumn) (groups : List (List T)) : Prop where
  nonempty : ∀ g ∈ groups, g ≠ []
  keyed : ∀ g ∈ groups, ∀ a ∈ g, rowKey rt fields sources column a ≠ none
  equal : ∀ g ∈ groups, ∀ a ∈ g, ∀ b ∈ g,
    compareKeys rt (rowKey rt fields sources column a) (rowKey rt fields sources column b) = 0
  rising : groups.Pairwise fun g h => ∀ a ∈ g, ∀ b ∈ h,
    compareKeys rt (rowKey rt fields sources column a) (rowKey rt fields sources column b) < 0

theorem Column.shown {α : Type} {cmp : α → α → Int} {key : T → Option α}
    (known : Column rt fields sources column cmp key)
    (distinct : (tasks.map fun t => (fields t).id).Nodup) (direction : SortDirection) :
    Shown rt fields sources ⟨column, direction⟩
      (sortTasks rt fields tasks (some ⟨column, direction⟩) sources) := by
  have perm := sort_perm (compareRows rt fields ⟨column, direction⟩ sources) tasks
  have ordered : Ordered (rowOrder cmp key (fun t => (fields t).id) direction.sign)
      (sort (compareRows rt fields ⟨column, direction⟩ sources) tasks) := by
    rw [known.ordered]
    exact (known.lawful.rows direction.unit).sort_ordered tasks
  have before : (sort (compareRows rt fields ⟨column, direction⟩ sources) tasks).Pairwise
      (Before cmp key (fun t => (fields t).id) direction.sign) := by
    apply ordered.imp
    intro a b le
    exact before_of_rowOrder direction.unit le
  have apart : (sort (compareRows rt fields ⟨column, direction⟩ sources) tasks).Pairwise
      fun a b => (fields a).id ≠ (fields b).id := by
    rw [← List.pairwise_map, ← List.Nodup]
    exact (perm.map _).nodup_iff.mpr distinct
  constructor
  · apply before.imp
    intro a b two missing
    exact (known.missing b).mpr (two.nulls ((known.missing a).mp missing))
  · apply before.imp
    intro a b two left right
    rw [known.compared]
    exact two.keyed (fun missing => left ((known.missing a).mpr missing))
      fun missing => right ((known.missing b).mpr missing)
  · apply (before.and apart).imp
    intro a b two same
    rw [known.compared] at same
    have le := two.1.ties same
    have ne := two.2
    omega

theorem Column.grouped {α : Type} {cmp : α → α → Int} {key : T → Option α}
    (known : Column rt fields sources column cmp key)
    (distinct : (tasks.map fun t => (fields t).id).Nodup) :
    ∃ groups nulls, KeyGroups rt fields sources column groups ∧
      (∀ a ∈ nulls, rowKey rt fields sources column a = none) ∧
      sortTasks rt fields tasks (some ⟨column, .asc⟩) sources = groups.flatten ++ nulls ∧
      sortTasks rt fields tasks (some ⟨column, .desc⟩) sources =
        groups.reverse.flatten ++ nulls := by
  obtain ⟨groups, nulls, up, down, classes, keyed, missing⟩ :=
    @Lawful.sort_reversed _ _ _ key _ _ known.lawful distinct
  refine ⟨groups, nulls, ⟨classes.nonempty, ?_, ?_, ?_⟩, ?_, ?_, ?_⟩
  · intro g member a mem nothing
    exact keyed g member a mem ((known.missing a).mp nothing)
  · intro g member a left b right
    rw [known.compared]
    exact classes.equal g member a left b right
  · apply classes.rising.imp
    intro g h less a left b right
    rw [known.compared]
    exact less a left b right
  · intro a mem
    exact (known.missing a).mpr (missing a mem)
  · simp only [sortTasks, known.ordered]
    exact up
  · simp only [sortTasks, known.ordered]
    exact down

/-- The task table has one order: tasks with distinct ids are shown in the same order however
    they arrive, rows without a key last and equal keys by id in both directions, and the other
    direction reverses the groups of equal keys and nothing else. -/
theorem tasks_have_one_order (rt : Runtime) (preorder : Lawful rt.localeCompare)
    (fields : T → SortableTask) (tasks : List T)
    (distinct : (tasks.map fun t => (fields t).id).Nodup) (sources : List NamedSource)
    (column : SortColumn) :
    (∀ direction, (∀ other : List T, other.Perm tasks →
        sortTasks rt fields other (some ⟨column, direction⟩) sources =
          sortTasks rt fields tasks (some ⟨column, direction⟩) sources) ∧
      (sortTasks rt fields tasks (some ⟨column, direction⟩) sources).Perm tasks ∧
      Shown rt fields sources ⟨column, direction⟩
        (sortTasks rt fields tasks (some ⟨column, direction⟩) sources)) ∧
    ∃ groups nulls, KeyGroups rt fields sources column groups ∧
      (∀ a ∈ nulls, rowKey rt fields sources column a = none) ∧
      sortTasks rt fields tasks (some ⟨column, .asc⟩) sources = groups.flatten ++ nulls ∧
      sortTasks rt fields tasks (some ⟨column, .desc⟩) sources =
        groups.reverse.flatten ++ nulls := by
  obtain ⟨α, cmp, key, known⟩ := exists_column preorder fields sources column
  constructor
  · intro direction
    refine ⟨?_, sort_perm _ tasks, known.shown distinct direction⟩
    intro other perm
    simp only [sortTasks, known.ordered]
    exact (known.lawful.rows direction.unit).sort_congr (rowOrder_separates distinct) perm
  · exact known.grouped distinct

namespace Sample

/-- Code points order the lower-case words below as a locale does. -/
def runtime : Runtime where
  toLowerCase := String.toLower
  localeCompare := ofOrder
  dateParse := fun text => if text = "2026-09-10T03:00:00Z" then some 1788999600000 else none

def row (id : Int) (state : Option String) : SortableTask where
  id := id
  remotePath := "/a"
  taskType := "rsync"
  sourceId := 1
  cron := "0 3 * * *"
  enabled := true
  nextRun := none
  lastRunAt := none
  lastRunState := state

def table : List SortableTask :=
  [row 1 none, row 2 (some "success"), row 5 (some "failed"), row 3 (some "failed")]

end Sample

/-- Failed, then successful, then the task that has never run; and the other way about. -/
theorem states_shown :
    sortTasks Sample.runtime id Sample.table (some ⟨.state, .asc⟩) [] =
        [Sample.row 3 (some "failed"), Sample.row 5 (some "failed"),
          Sample.row 2 (some "success"), Sample.row 1 none] ∧
      sortTasks Sample.runtime id Sample.table (some ⟨.state, .desc⟩) [] =
        [Sample.row 2 (some "success"), Sample.row 3 (some "failed"),
          Sample.row 5 (some "failed"), Sample.row 1 none] := by
  have order := (tasks_have_one_order Sample.runtime lawful_ofOrder id Sample.table (by decide) []
    .state).1
  -- what is in order already stays as it is
  constructor
  · refine ((order .asc).1 _ ?_).symm.trans (List.mergeSort_of_pairwise ?_)
    · decide
    · decide +kernel
  · refine ((order .desc).1 _ ?_).symm.trans (List.mergeSort_of_pairwise ?_)
    · decide
    · decide +kernel

/-- A click on the header of the active column shows the groups of equal keys in the opposite
    order, each as it was, and the rows without a key where they were. -/
theorem click_reverses (preorder : Lawful rt.localeCompare)
    (distinct : (tasks.map fun t => (fields t).id).Nodup) (pref : SortPreference) :
    ∃ (groups : List (List T)) (nulls : List T),
      (∀ g ∈ groups, ∀ a ∈ g, ∀ b ∈ g, compareKeys rt (rowKey rt fields sources pref.column a)
        (rowKey rt fields sources pref.column b) = 0) ∧
      (∀ a ∈ nulls, rowKey rt fields sources pref.column a = none) ∧
      sortTasks rt fields tasks (some pref) sources = groups.flatten ++ nulls ∧
      sortTasks rt fields tasks (some (nextSort (some pref) pref.column)) sources =
        groups.reverse.flatten ++ nulls := by
  obtain ⟨column, direction⟩ := pref
  obtain ⟨α, cmp, key, known⟩ := exists_column preorder fields sources column
  obtain ⟨groups, nulls, classes, missing, up, down⟩ := known.grouped distinct
  cases direction with
  | asc => exact ⟨groups, nulls, classes.equal, missing, up, by simpa [nextSort] using down⟩
  | desc =>
    refine ⟨groups.reverse, nulls, ?_, missing, down, ?_⟩
    · intro g member
      exact classes.equal g (List.mem_reverse.mp member)
    · rw [List.reverse_reverse]
      simpa [nextSort] using up

end Order

end Pullbackup
