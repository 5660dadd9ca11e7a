import Mathlib.Data.List.Dedup
import Mathlib.Data.List.Sort
import Pullbackup.Library.Text

/- load_settings: two prefixes, the process environment and the .env file, with
pydantic-settings ranking init arguments above the environment above .env above the
defaults. Values are the supplied texts before they are parsed. -/
namespace Pullbackup

def envPrefix : String := "PULLBACKUP_"
def legacyEnvPrefix : String := "PULLBACK_"

structure Variables where
  items : List (String × String)
  distinct : (items.map Prod.fst).Nodup

def Variables.names (vars : Variables) : List String := vars.items.map Prod.fst

def Variables.get (vars : Variables) (name : String) : Option String := vars.items.lookup name

/-- str.lower on names: outside ASCII only the Kelvin sign has an ASCII lower case. -/
def lowerChar (c : Char) : Char := if c = '\u212A' then 'k' else c.toLower

def lower (name : String) : String := String.ofList (name.toList.map lowerChar)

def hasPrefix (pre name : String) : Bool := pre.toList.isPrefixOf name.toList

def withoutPrefix (pre name : String) : String := String.ofList (name.toList.drop pre.toList.length)

structure SettingsField where
  name : String
  default : Option String
  deriving DecidableEq, Repr

def modelFields : List SettingsField :=
  [⟨"data_dir", some "/data"⟩, ⟨"db_filename", some "pullback.db"⟩,
    ⟨"dest_roots", some "/mnt/dest/backups"⟩, ⟨"zfs_dest_roots", some ""⟩,
    ⟨"max_concurrent_runs", some "3"⟩, ⟨"run_timeout_seconds", some "86400"⟩,
    ⟨"watchdog_interval_seconds", some "60"⟩, ⟨"log_retention_runs", some "200"⟩,
    ⟨"http_basic_username", some ""⟩, ⟨"http_basic_password", some ""⟩,
    ⟨"session_secret", some ""⟩, ⟨"session_max_age_seconds", some "604800"⟩,
    ⟨"trusted_proxies", some ""⟩, ⟨"auth_store_max_entries", some "100000"⟩,
    ⟨"matrix_homeserver", some ""⟩, ⟨"matrix_token", some ""⟩, ⟨"matrix_room_id", some ""⟩,
    ⟨"uptime_kuma_url", some ""⟩, ⟨"uptime_kuma_username", some ""⟩,
    ⟨"uptime_kuma_password", some ""⟩, ⟨"kuma_group_id", none⟩]

/-- The fields of _MatrixKumaSettings, by the field of Settings each one stands in for. -/
def matrixKumaField (field : String) : Option String :=
  [("matrix_homeserver", "MATRIX_HOMESERVER"), ("matrix_token", "MATRIX_TOKEN"),
    ("matrix_room_id", "MATRIX_ROOM_ID"), ("uptime_kuma_url", "UPTIME_KUMA_URL"),
    ("uptime_kuma_username", "UPTIME_KUMA_USERNAME"),
    ("uptime_kuma_password", "UPTIME_KUMA_PASSWORD")].lookup field

def isOrphan (environ dotenv : Variables) (name : String) : Bool :=
  hasPrefix legacyEnvPrefix name && !hasPrefix envPrefix name &&
    decide (envPrefix ++ withoutPrefix legacyEnvPrefix name ∉ dotenv.names ++ environ.names)

def orphanedLegacyVariables (environ dotenv : Variables) : List String :=
  ((dotenv.names ++ environ.names).dedup.filter (isOrphan environ dotenv)).insertionSort (· ≤ ·)

/-- The value of the environment where the name is there; an orphan is in one of the two. -/
def adoptedValue (environ dotenv : Variables) (name : String) : String :=
  ((environ.get name).or (dotenv.get name)).getD ""

def adopted (environ dotenv : Variables) : List (String × String) :=
  (orphanedLegacyVariables environ dotenv).map fun name =>
    (envPrefix ++ withoutPrefix legacyEnvPrefix name, adoptedValue environ dotenv name)

/-- No adopted name is one of the environment, so the merge appends. -/
def merged (environ dotenv : Variables) : List (String × String) :=
  adopted environ dotenv ++ environ.items.filter fun item => hasPrefix envPrefix item.1

def lastValue (p : String → Bool) (items : List (String × String)) : Option String :=
  ((items.filter fun item => p item.1).getLast?).map Prod.snd

def spells (pre field name : String) : Bool :=
  hasPrefix pre name && decide (lower (withoutPrefix pre name) = field)

def explicitValue (items : List (String × String)) (field : String) : Option String :=
  lastValue (spells envPrefix field) items

/-- A source of pydantic-settings, which compares names in lower case. -/
def sourceValue (vars : Variables) (name : String) : Option String :=
  lastValue (fun given => decide (lower given = lower name)) vars.items

def settingsValue (environ dotenv : Variables) (field : SettingsField) : Option String :=
  (explicitValue (merged environ dotenv) field.name).or
    ((sourceValue environ (envPrefix ++ field.name)).or
      ((sourceValue dotenv (envPrefix ++ field.name)).or field.default))

def matrixKumaValue (environ dotenv : Variables) (name : String) : String :=
  ((environ.get name).or ((sourceValue environ name).or (sourceValue dotenv name))).getD ""

def loadSettings (environ dotenv : Variables) (field : SettingsField) : Option String :=
  match matrixKumaField field.name with
  | none => settingsValue environ dotenv field
  | some name =>
    if settingsValue environ dotenv field = some "" then
      some (matrixKumaValue environ dotenv name)
    else settingsValue environ dotenv field

section Precedence

/-- The value is one of the first tier that has any, and the default when none has. -/
def Ranked (default : Option String) : List (List String) → Option String → Prop
  | [], value => value = default
  | tier :: rest, value =>
    if tier = [] then Ranked default rest value else ∃ text ∈ tier, value = some text

instance decidableRanked (default : Option String) : (tiers : List (List String)) →
    (value : Option String) → Decidable (Ranked default tiers value)
  | [], value => inferInstanceAs (Decidable (value = default))
  | tier :: rest, value =>
    have later := decidableRanked default rest value
    if empty : tier = [] then decidable_of_iff (Ranked default rest value) (by simp [Ranked, empty])
    else decidable_of_iff (∃ text ∈ tier, value = some text) (by simp [Ranked, empty])

def Variables.supplied (vars : Variables) (p : String → Bool) : List String :=
  (vars.items.filter fun item => p item.1).map Prod.snd

def anyCase (name given : String) : Bool := decide (lower given = lower name)

/-- The tiers of a field: its new name in the environment and in .env, then its retired name,
    which begins with exactly PULLBACK_, in the two. -/
def tiers (environ dotenv : Variables) (field : String) : List (List String) :=
  [environ.supplied (anyCase (envPrefix ++ field)), dotenv.supplied (anyCase (envPrefix ++ field)),
    environ.supplied (spells legacyEnvPrefix field), dotenv.supplied (spells legacyEnvPrefix field)]

def orphansOf (environ dotenv : Variables) (field : String) : List String :=
  (orphanedLegacyVariables environ dotenv).filter (spells legacyEnvPrefix field)

/-- A retired name is adopted though a higher tier has a value: the new name is given in a
    spelling that neither the counterpart of the retired one nor _explicit matches, or the name
    that sorts last is of .env and the environment gives another. -/
def Displaced (environ dotenv : Variables) (field : String) : Prop :=
  ∃ name, (orphansOf environ dotenv field).getLast? = some name ∧
    (∀ given ∈ environ.names, spells envPrefix field given = false) ∧
    (environ.supplied (anyCase (envPrefix ++ field)) ≠ [] ∨
      dotenv.supplied (anyCase (envPrefix ++ field)) ≠ [] ∨
      (environ.get name = none ∧ environ.supplied (spells legacyEnvPrefix field) ≠ []))

variable {environ dotenv vars : Variables} {p : String → Bool} {items : List (String × String)}
  {field name pre rest text : String} {tier : List String}

theorem ranked_here {default : Option String} {others : List (List String)}
    (mem : text ∈ tier) : Ranked default (tier :: others) (some text) := by
  unfold Ranked
  rw [if_neg (List.ne_nil_of_mem mem)]
  exact ⟨text, mem, rfl⟩

theorem ranked_later {default value : Option String} {others : List (List String)}
    (empty : tier = []) (later : Ranked default others value) :
    Ranked default (tier :: others) value := by
  unfold Ranked
  rw [if_pos empty]
  exact later

theorem mem_supplied : text ∈ vars.supplied p ↔
    ∃ given, (given, text) ∈ vars.items ∧ p given = true := by
  simp [Variables.supplied]

theorem supplied_eq_nil : vars.supplied p = [] ↔ ∀ given ∈ vars.names, p given = false := by
  simp [Variables.supplied, Variables.names]

theorem lastValue_mem (last : lastValue p items = some text) :
    ∃ given, (given, text) ∈ items ∧ p given = true := by
  obtain ⟨⟨given, value⟩, found, rfl⟩ := Option.map_eq_some_iff.mp last
  have mem := List.mem_filter.mp (List.mem_of_getLast? found)
  exact ⟨given, mem.1, mem.2⟩

theorem lastValue_none : lastValue p items = none ↔ ∀ item ∈ items, p item.1 = false := by
  simp [lastValue]

theorem lastValue_append (front back : List (String × String)) :
    lastValue p (front ++ back) = (lastValue p back).or (lastValue p front) := by
  unfold lastValue
  rw [List.filter_append, List.getLast?_append, Option.map_or]

theorem lastValue_supplied (last : lastValue p vars.items = some text) : text ∈ vars.supplied p :=
  mem_supplied.mpr (lastValue_mem last)

theorem supplied_of_none (last : lastValue p vars.items = none) : vars.supplied p = [] := by
  apply supplied_eq_nil.mpr
  intro given mem
  obtain ⟨item, here, rfl⟩ := List.mem_map.mp mem
  exact lastValue_none.mp last item here

theorem get_mem (found : vars.get name = some text) : (name, text) ∈ vars.items := by
  obtain ⟨front, back, items, -⟩ := List.lookup_eq_some_iff.mp found
  rw [items]
  simp

theorem get_of_mem (mem : name ∈ vars.names) : ∃ text, vars.get name = some text := by
  cases found : vars.get name with
  | some text => exact ⟨text, rfl⟩
  | none =>
    unfold Variables.get at found
    rw [List.lookup_eq_none_iff] at found
    obtain ⟨⟨given, value⟩, here, rfl⟩ := List.mem_map.mp mem
    simpa using found _ here

theorem hasPrefix_iff : hasPrefix pre name = true ↔ name = pre ++ withoutPrefix pre name := by
  unfold hasPrefix withoutPrefix
  rw [List.isPrefixOf_iff_prefix]
  constructor
  · rintro ⟨rest, whole⟩
    apply String.toList_injective
    rw [String.toList_append, String.toList_ofList, ← whole, List.drop_left]
  · intro same
    have letters := congrArg String.toList same
    rw [String.toList_append] at letters
    exact ⟨_, letters.symm⟩

theorem withoutPrefix_append (pre rest : String) : withoutPrefix pre (pre ++ rest) = rest := by
  unfold withoutPrefix
  rw [String.toList_append, List.drop_left, String.ofList_toList]

theorem hasPrefix_append (pre rest : String) : hasPrefix pre (pre ++ rest) = true :=
  hasPrefix_iff.mpr (by rw [withoutPrefix_append])

theorem lower_append (s t : String) : lower (s ++ t) = lower s ++ lower t := by
  apply String.toList_injective
  simp [lower]

theorem spells_anyCase (plain : lower field = field) (spelled : spells envPrefix field name = true) :
    anyCase (envPrefix ++ field) name = true := by
  simp only [spells, Bool.and_eq_true, decide_eq_true_eq] at spelled
  obtain ⟨front, rest⟩ := spelled
  have whole := hasPrefix_iff.mp front
  apply decide_eq_true
  rw [whole, lower_append, lower_append, rest, plain]

theorem orphan_legacy (mem : name ∈ orphanedLegacyVariables environ dotenv) :
    hasPrefix legacyEnvPrefix name = true ∧ (name ∈ dotenv.names ∨ name ∈ environ.names) := by
  obtain ⟨given, orphan⟩ := List.mem_filter.mp ((List.mem_insertionSort _).mp mem)
  simp only [isOrphan, Bool.and_eq_true] at orphan
  exact ⟨orphan.1.1, List.mem_append.mp (List.mem_dedup.mp given)⟩

theorem spells_counterpart (mem : name ∈ orphanedLegacyVariables environ dotenv) :
    spells envPrefix field (envPrefix ++ withoutPrefix legacyEnvPrefix name) =
      spells legacyEnvPrefix field name := by
  unfold spells
  rw [hasPrefix_append, withoutPrefix_append, (orphan_legacy mem).1]

theorem lastValue_adopted : lastValue (spells envPrefix field) (adopted environ dotenv) =
    (orphansOf environ dotenv field).getLast?.map (adoptedValue environ dotenv) := by
  unfold lastValue adopted orphansOf
  rw [List.filter_map, List.getLast?_map, Option.map_map]
  have same : (orphanedLegacyVariables environ dotenv).filter
      ((fun item : String × String => spells envPrefix field item.1) ∘ fun name =>
        (envPrefix ++ withoutPrefix legacyEnvPrefix name, adoptedValue environ dotenv name)) =
      (orphanedLegacyVariables environ dotenv).filter (spells legacyEnvPrefix field) :=
    List.filter_congr fun name mem => spells_counterpart mem
  rw [same]
  rfl

/-- What _explicit finds: a new name of the environment first, then the last orphan. -/
theorem explicitValue_merged : explicitValue (merged environ dotenv) field =
    (lastValue (spells envPrefix field) environ.items).or
      ((orphansOf environ dotenv field).getLast?.map (adoptedValue environ dotenv)) := by
  unfold explicitValue merged
  rw [lastValue_append, lastValue_adopted]
  congr 1
  unfold lastValue
  rw [List.filter_filter]
  congr 2
  apply List.filter_congr
  intro item _
  cases spelled : spells envPrefix field item.1 with
  | false => rfl
  | true =>
    simp only [spells, Bool.and_eq_true] at spelled
    simp [spelled.1]

theorem adoptedValue_mem (mem : name ∈ orphansOf environ dotenv field) :
    ((∃ text, environ.get name = some text ∧ adoptedValue environ dotenv name = text) ∨
      (environ.get name = none ∧ ∃ text, dotenv.get name = some text ∧
        adoptedValue environ dotenv name = text)) ∧ spells legacyEnvPrefix field name = true := by
  obtain ⟨orphan, spelled⟩ := List.mem_filter.mp mem
  refine ⟨?_, spelled⟩
  unfold adoptedValue
  cases here : environ.get name with
  | some text => exact Or.inl ⟨text, rfl, rfl⟩
  | none =>
    obtain given | given := (orphan_legacy orphan).2
    · obtain ⟨text, found⟩ := get_of_mem given
      exact Or.inr ⟨rfl, text, found, by simp [found]⟩
    · obtain ⟨text, found⟩ := get_of_mem given
      rw [here] at found
      cases found

theorem legacy_not_new (legacy : hasPrefix legacyEnvPrefix name = true) :
    hasPrefix envPrefix name = false := by
  by_contra new
  have both := List.isPrefixOf_iff_prefix.mp (by simpa using new : hasPrefix envPrefix name = true)
  have inside := List.prefix_of_prefix_length_le (List.isPrefixOf_iff_prefix.mp legacy) both
    (by decide +kernel)
  exact absurd inside (by decide +kernel)

theorem mem_orphansOf (plain : lower field = field)
    (env : environ.supplied (anyCase (envPrefix ++ field)) = [])
    (file : dotenv.supplied (anyCase (envPrefix ++ field)) = [])
    (given : name ∈ dotenv.names ∨ name ∈ environ.names)
    (spelled : spells legacyEnvPrefix field name = true) : name ∈ orphansOf environ dotenv field := by
  have both := spelled
  simp only [spells, Bool.and_eq_true, decide_eq_true_eq] at both
  have counterpart : anyCase (envPrefix ++ field)
      (envPrefix ++ withoutPrefix legacyEnvPrefix name) = true := by
    apply spells_anyCase plain
    unfold spells
    rw [hasPrefix_append, withoutPrefix_append, both.2]
    simp
  apply List.mem_filter.mpr
  refine ⟨?_, spelled⟩
  apply (List.mem_insertionSort _).mpr
  apply List.mem_filter.mpr
  refine ⟨List.mem_dedup.mpr (List.mem_append.mpr given), ?_⟩
  simp only [isOrphan, both.1, legacy_not_new both.1, Bool.not_false, Bool.and_true,
    Bool.true_and, decide_eq_true_eq, List.mem_append, not_or]
  constructor
  · intro here
    rw [supplied_eq_nil.mp file _ here] at counterpart
    cases counterpart
  · intro here
    rw [supplied_eq_nil.mp env _ here] at counterpart
    cases counterpart

theorem lower_modelFields {field : SettingsField} (mem : field ∈ modelFields) :
    lower field.name = field.name := by
  revert field
  decide +kernel

/-- What the settings library makes of a field, outside the displaced ones. -/
theorem settingsValue_ranked {field : SettingsField} (mem : field ∈ modelFields)
    (placed : ¬ Displaced environ dotenv field.name) :
    Ranked field.default (tiers environ dotenv field.name) (settingsValue environ dotenv field) := by
  have plain := lower_modelFields mem
  unfold settingsValue tiers
  rw [explicitValue_merged]
  cases direct : lastValue (spells envPrefix field.name) environ.items with
  | some text =>
    obtain ⟨given, here, spelled⟩ := lastValue_mem direct
    exact ranked_here (mem_supplied.mpr ⟨given, here, spells_anyCase plain spelled⟩)
  | none =>
    cases last : (orphansOf environ dotenv field.name).getLast? with
    | some name =>
      have unspelled : ∀ given ∈ environ.names, spells envPrefix field.name given = false := by
        intro given here
        obtain ⟨item, found, rfl⟩ := List.mem_map.mp here
        exact lastValue_none.mp direct item found
      have below := not_or.mp fun higher => placed ⟨name, last, unspelled, higher⟩
      have later := not_or.mp below.2
      obtain ⟨value, spelled⟩ := adoptedValue_mem (List.mem_of_getLast? last)
      apply ranked_later (not_not.mp below.1)
      apply ranked_later (not_not.mp later.1)
      obtain ⟨text, found, same⟩ | ⟨absent, text, found, same⟩ := value
      · simp only [Option.map_some, Option.or_some, same]
        exact ranked_here (mem_supplied.mpr ⟨name, get_mem found, spelled⟩)
      · simp only [Option.map_some, Option.or_some, same]
        apply ranked_later
        · by_contra given
          exact later.2 ⟨absent, given⟩
        · exact ranked_here (mem_supplied.mpr ⟨name, get_mem found, spelled⟩)
    | none =>
      simp only [Option.map_none, Option.or_none, Option.none_or]
      cases env : sourceValue environ (envPrefix ++ field.name) with
      | some text => exact ranked_here (lastValue_supplied env)
      | none =>
        have newEnv : environ.supplied (anyCase (envPrefix ++ field.name)) = [] := supplied_of_none env
        apply ranked_later newEnv
        cases file : sourceValue dotenv (envPrefix ++ field.name) with
        | some text => exact ranked_here (lastValue_supplied file)
        | none =>
          have newFile : dotenv.supplied (anyCase (envPrefix ++ field.name)) = [] :=
            supplied_of_none file
          have retired : ∀ name, name ∈ dotenv.names ∨ name ∈ environ.names →
              spells legacyEnvPrefix field.name name = false := by
            intro name given
            by_contra spelled
            have orphan := mem_orphansOf plain newEnv newFile given (by simpa using spelled)
            rw [List.getLast?_eq_none_iff.mp last] at orphan
            cases orphan
          apply ranked_later newFile
          apply ranked_later (supplied_eq_nil.mpr fun name mem => retired name (Or.inr mem))
          exact ranked_later (supplied_eq_nil.mpr fun name mem => retired name (Or.inl mem)) rfl

theorem matrixKumaValue_ranked (environ dotenv : Variables) (name : String) :
    Ranked (some "") [environ.supplied (anyCase name), dotenv.supplied (anyCase name)]
      (some (matrixKumaValue environ dotenv name)) := by
  unfold matrixKumaValue
  cases spelledOut : environ.get name with
  | some text =>
    exact ranked_here (mem_supplied.mpr ⟨name, get_mem spelledOut, decide_eq_true rfl⟩)
  | none =>
    cases env : sourceValue environ name with
    | some text => exact ranked_here (lastValue_supplied env)
    | none =>
      apply ranked_later (supplied_of_none env)
      cases file : sourceValue dotenv name with
      | some text => exact ranked_here (lastValue_supplied file)
      | none => exact ranked_later (supplied_of_none file) rfl

/-- The new name of a field wins over the retired one and the environment over .env, and a
    Matrix or Kuma field that is left empty takes its unprefixed name. -/
theorem loadSettings_ranked (environ dotenv : Variables) (field : SettingsField)
    (mem : field ∈ modelFields) (placed : ¬ Displaced environ dotenv field.name) :
    ∃ value, Ranked field.default (tiers environ dotenv field.name) value ∧
      (matrixKumaField field.name = none ∨ value ≠ some "" →
        loadSettings environ dotenv field = value) ∧
      ∀ name, matrixKumaField field.name = some name → value = some "" →
        Ranked (some "") [environ.supplied (anyCase name), dotenv.supplied (anyCase name)]
          (loadSettings environ dotenv field) := by
  refine ⟨settingsValue environ dotenv field, settingsValue_ranked mem placed, ?_, ?_⟩
  · intro plain
    unfold loadSettings
    cases unprefixed : matrixKumaField field.name with
    | none => rfl
    | some name =>
      have filled := plain.resolve_left (by simp [unprefixed])
      simp only [if_neg filled]
  · intro name unprefixed empty
    unfold loadSettings
    simp only [unprefixed, if_pos empty]
    exact matrixKumaValue_ranked environ dotenv name

theorem settingsValue_displaced {field : SettingsField}
    (displaced : Displaced environ dotenv field.name) :
    ∃ name ∈ orphansOf environ dotenv field.name,
      settingsValue environ dotenv field = some (adoptedValue environ dotenv name) := by
  obtain ⟨name, last, unspelled, _⟩ := displaced
  have direct : lastValue (spells envPrefix field.name) environ.items = none := by
    apply lastValue_none.mpr
    intro item mem
    exact unspelled item.1 (List.mem_map_of_mem mem)
  refine ⟨name, List.mem_of_getLast? last, ?_⟩
  unfold settingsValue
  rw [explicitValue_merged, direct, last]
  simp

namespace Sample

def destRoots : SettingsField := ⟨"dest_roots", some "/mnt/dest/backups"⟩

def matrixToken : SettingsField := ⟨"matrix_token", some ""⟩

def noVariables : Variables := ⟨[], by decide⟩

/-- Both prefixes, the new one in another letter case. -/
def migrated : Variables :=
  ⟨[("PULLBACK_DEST_ROOTS", "/old"), ("pullbackup_dest_roots", "/new")], by decide +kernel⟩

def retiredOnly : Variables := ⟨[("PULLBACK_DEST_ROOTS", "/old")], by decide⟩

def renamedFile : Variables := ⟨[("pullbackup_dest_roots", "/new")], by decide⟩

def respelledFile : Variables := ⟨[("PULLBACK_dest_roots", "/file")], by decide⟩

def smallLetters : Variables := ⟨[("pullback_dest_roots", "/old")], by decide⟩

def unprefixed : Variables := ⟨[("MATRIX_TOKEN", "secret")], by decide⟩

end Sample

/-- The tiers of a field when the retired prefix, too, is matched in any letter case. -/
def anyCaseTiers (environ dotenv : Variables) (field : String) : List (List String) :=
  [environ.supplied (anyCase (envPrefix ++ field)), dotenv.supplied (anyCase (envPrefix ++ field)),
    environ.supplied (anyCase (legacyEnvPrefix ++ field)),
    dotenv.supplied (anyCase (legacyEnvPrefix ++ field))]

/-- The field has the value, which is not the one its tiers give. -/
def Unranked (environ dotenv : Variables) (field : SettingsField) (value : String) : Prop :=
  loadSettings environ dotenv field = some value ∧
    ¬ Ranked field.default (anyCaseTiers environ dotenv field.name)
      (loadSettings environ dotenv field)

instance (environ dotenv : Variables) (field : SettingsField) (value : String) :
    Decidable (Unranked environ dotenv field value) :=
  inferInstanceAs (Decidable (_ ∧ _))

/-- An unprefixed name takes the place of a default; a retired name in small letters gives way
    to it. A retired name takes the place of a new one in small letters, of the environment or
    of .env, and one of .env that of another spelling of the environment. -/
theorem loadSettings_unranked :
    Unranked Sample.unprefixed Sample.noVariables Sample.matrixToken "secret" ∧
    Unranked Sample.smallLetters Sample.noVariables Sample.destRoots "/mnt/dest/backups" ∧
    Unranked Sample.migrated Sample.noVariables Sample.destRoots "/old" ∧
    Unranked Sample.retiredOnly Sample.renamedFile Sample.destRoots "/old" ∧
    Unranked Sample.retiredOnly Sample.respelledFile Sample.destRoots "/file" := by
  decide +kernel

theorem loadSettings_retired : ∃ value, Ranked (some "/mnt/dest/backups")
    (tiers Sample.retiredOnly Sample.noVariables "dest_roots") value ∧
      loadSettings Sample.retiredOnly Sample.noVariables Sample.destRoots = value := by
  have placed : ¬ Displaced Sample.retiredOnly Sample.noVariables Sample.destRoots.name := by
    rintro ⟨name, last, -, new | new | ⟨absent, -⟩⟩
    · exact absurd new (by decide +kernel)
    · exact absurd new (by decide +kernel)
    · have orphan : (orphansOf Sample.retiredOnly Sample.noVariables "dest_roots").getLast? =
          some "PULLBACK_DEST_ROOTS" := by decide +kernel
      rw [show Sample.destRoots.name = "dest_roots" from rfl, orphan] at last
      cases last
      exact absurd absent (by decide +kernel)
  obtain ⟨value, ranked, whole, -⟩ := loadSettings_ranked Sample.retiredOnly Sample.noVariables
    Sample.destRoots (by decide) placed
  exact ⟨value, ranked, whole (Or.inl (by decide +kernel))⟩

end Precedence

end Pullbackup
