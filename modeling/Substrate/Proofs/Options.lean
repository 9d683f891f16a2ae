import Substrate.Options
import Mathlib.Data.List.Basic

/-!
# The layers of the options

The environment and the arguments each override some options (`Settings`). A machine's options are the
defaults with the settings of the environment laid over them and the settings of the arguments laid over
that; the result has to be valid after each of the two layers (`parse_ok_iff`).

The settings of the arguments are found by looking for one flag after the other. What is found is taken
out, so a later flag is only looked for in what the earlier ones have left.
-/

namespace Substrate

namespace Arguments

variable {α : Type} {key flag value : String} {args before after rest : Arguments}

/-- The first occurrence of an option is taken out of the arguments with the argument behind it, which
can be read. Without an occurrence there is nothing to take. -/
inductive Taken (read : String → Option α) (key : String) :
    Arguments → Option α → Arguments → Prop where
  | absent {args : Arguments} (h : key ∉ args) : Taken read key args none args
  | present {before after : Arguments} {value : String} {a : α} (hfirst : key ∉ before)
      (hread : read value = some a) :
      Taken read key (before ++ key :: value :: after) (some a) (before ++ after)

/-- The first occurrence of a flag is taken out of the arguments, and it sets an option to a value. -/
inductive Switched (a : α) (flag : String) : Arguments → Option α → Arguments → Prop where
  | absent {args : Arguments} (h : flag ∉ args) : Switched a flag args none args
  | present {before after : Arguments} (hfirst : flag ∉ before) :
      Switched a flag (before ++ flag :: after) (some a) (before ++ after)

theorem splitOption_of_not_mem (h : key ∉ args) : splitOption key args = none := by
  induction args with
  | nil => rfl
  | cons arg args ih =>
    have hne : ¬(arg == key) = true := by simpa using (List.ne_of_not_mem_cons h).symm
    simp only [splitOption, if_neg hne, ih (List.not_mem_of_not_mem_cons h), Option.map_none]

theorem splitOption_append (h : key ∉ before) (rest : Arguments) :
    splitOption key (before ++ rest) =
      (splitOption key rest).map fun (value?, others) => (value?, before ++ others) := by
  induction before with
  | nil => simp
  | cons arg before ih =>
    have hne : ¬(arg == key) = true := by simpa using (List.ne_of_not_mem_cons h).symm
    simp only [List.cons_append, splitOption, if_neg hne, ih (List.not_mem_of_not_mem_cons h),
      Option.map_map, Function.comp_def]

/-- The argument behind the first occurrence and what is left without the two. -/
theorem splitOption_first (h : key ∉ before) (value : String) (after : Arguments) :
    splitOption key (before ++ key :: value :: after) = some (some value, before ++ after) := by
  rw [splitOption_append h, splitOption, if_pos (beq_self_eq_true key)]
  rfl

theorem splitOption_last (h : key ∉ before) :
    splitOption key (before ++ [key]) = some (none, before) := by
  rw [splitOption_append h, splitOption, if_pos (beq_self_eq_true key)]
  exact congrArg (fun others => some (none, others)) (List.append_nil before)

theorem switched_iff {a : α} {setting : Option α} : Switched a flag args setting rest ↔
    setting = (if args.contains flag then some a else none) ∧ rest = args.erase flag := by
  constructor
  · rintro (h | h)
    · rw [if_neg (by simpa using h), List.erase_of_not_mem h]
      exact ⟨rfl, rfl⟩
    · rw [if_pos (by simp), List.erase_append_right _ h, List.erase_cons_head]
      exact ⟨rfl, rfl⟩
  · rintro ⟨rfl, rfl⟩
    by_cases h : flag ∈ args
    · obtain ⟨before, after, hfirst, hargs, hrest⟩ := List.exists_erase_eq h
      rw [if_pos (by simpa using h), hrest, hargs]
      exact .present hfirst
    · rw [if_neg (by simpa using h), List.erase_of_not_mem h]
      exact .absent h

end Arguments

namespace Options

open Arguments (Taken Switched)

variable {α β : Type} {key name : String} {args rest : Arguments}

/-! ## Settings -/

/-- The options that one layer overrides. -/
structure Settings where
  minSize : Option Nat
  maxSize : Option Nat
  growth : Option Double
  frameLimit : Option Nat
  threadStackSize : Option Nat
  stackScan : Option Bool
  interiorPointers : Option Bool
  abortOnFatal : Option Bool

/-- The options with a layer of settings laid over them. -/
def Settings.over (s : Settings) (o : Options) : Options where
  heap :=
    { minSize := s.minSize.getD o.heap.minSize, maxSize := s.maxSize.getD o.heap.maxSize,
      growth := s.growth.getD o.heap.growth,
      interiorPointers := s.interiorPointers.getD o.heap.interiorPointers }
  stackScan := s.stackScan.getD o.stackScan
  frameLimit := s.frameLimit.getD o.frameLimit
  invocationLimit := o.invocationLimit
  threadStackSize := s.threadStackSize.or o.threadStackSize
  abortOnFatal := s.abortOnFatal.getD o.abortOnFatal

/-- The settings of the environment. There is no variable for the stack size of threads. -/
def Settings.ofEnvironment (env : Environment) : Settings where
  minSize := (env.lookup "LISPRT_GC_MIN_HEAP").bind Size.read?
  maxSize := (env.lookup "LISPRT_GC_MAX_HEAP").bind Size.read?
  growth := (env.lookup "LISPRT_GC_GROWTH").bind Size.readFactor?
  frameLimit := (env.lookup "LISPRT_FRAME_LIMIT").bind Size.read?
  threadStackSize := none
  stackScan := (env.lookup "LISPRT_STACK_SCAN").bind Size.readFlag?
  interiorPointers := (env.lookup "LISPRT_INTERIOR_POINTERS").bind Size.readFlag?
  abortOnFatal := (env.lookup "LISPRT_ABORT_ON_FATAL").bind Size.readFlag?

/-- The arguments consist of the flags for these settings and of the rest. Each flag is looked for in
what the flags before it have left. -/
def Settings.Spelled (s : Settings) (args rest : Arguments) : Prop :=
  ∃ args₁ args₂ args₃ args₄ args₅ args₆ args₇ : Arguments,
    Taken Size.read? "--gc-min-heap-size" args s.minSize args₁ ∧
    Taken Size.read? "--gc-max-heap-size" args₁ s.maxSize args₂ ∧
    Taken (fun text => (Arguments.readDouble text).toOption) "--gc-growth" args₂ s.growth args₃ ∧
    Taken (fun text => (Arguments.readCount text).toOption) "--frame-limit" args₃ s.frameLimit args₄ ∧
    Taken Size.read? "--thread-stack-size" args₄ s.threadStackSize args₅ ∧
    Switched false "--no-stack-scan" args₅ s.stackScan args₆ ∧
    Switched false "--no-interior-pointers" args₆ s.interiorPointers args₇ ∧
    Switched true "--abort-on-fatal" args₇ s.abortOnFatal rest

theorem mergeEnvironment_eq (env : Environment) (o : Options) :
    mergeEnvironment env o = (Settings.ofEnvironment env).over o := by
  unfold mergeEnvironment Settings.ofEnvironment Settings.over override
  cases (env.lookup "LISPRT_GC_MIN_HEAP").bind Size.read? <;>
  cases (env.lookup "LISPRT_GC_MAX_HEAP").bind Size.read? <;>
  cases (env.lookup "LISPRT_GC_GROWTH").bind Size.readFactor? <;>
  cases (env.lookup "LISPRT_FRAME_LIMIT").bind Size.read? <;>
  cases (env.lookup "LISPRT_STACK_SCAN").bind Size.readFlag? <;>
  cases (env.lookup "LISPRT_INTERIOR_POINTERS").bind Size.readFlag? <;>
  cases (env.lookup "LISPRT_ABORT_ON_FATAL").bind Size.readFlag? <;>
  rfl

/-! ## Taking the flags -/

/-- A step that goes on after another has succeeded if and only if both of them do. -/
theorem bind_ok_iff {step : Take α} {next : α → Take β} {b : β} :
    (step >>= next) args = .ok b rest ↔
      ∃ a mid, step args = .ok a mid ∧ next a mid = .ok b rest := by
  change EStateM.bind step next args = .ok b rest ↔ _
  unfold EStateM.bind
  cases step args <;> simp

/-- Taking an option succeeds if its value can be read, and if it is not there. -/
theorem takeValue_ok_iff {read : String → Except Decimal.LiteralError α} {setting : Option α} :
    takeValue key name read args = .ok setting rest ↔
      Taken (fun text => (read text).toOption) key args setting rest := by
  unfold takeValue Arguments.takeOption
  constructor
  · intro h
    by_cases hmem : key ∈ args
    · obtain ⟨before, after, rfl, hfirst⟩ := List.eq_append_cons_of_mem hmem
      cases after with
      | nil =>
        rw [Arguments.splitOption_last hfirst] at h
        cases h
      | cons value after =>
        rw [Arguments.splitOption_first hfirst] at h
        dsimp only at h
        cases hread : read value with
        | error cause => rw [hread] at h; cases h
        | ok a =>
          rw [hread] at h
          cases h
          exact .present hfirst (congrArg Except.toOption hread)
    · rw [Arguments.splitOption_of_not_mem hmem] at h
      cases h
      exact .absent hmem
  · intro h
    cases h with
    | absent hmem => rw [Arguments.splitOption_of_not_mem hmem]
    | @present before after value a hfirst hread =>
      rw [Arguments.splitOption_first hfirst]
      cases hvalue : read value with
      | error cause => rw [hvalue] at hread; cases hread
      | ok b =>
        rw [hvalue] at hread
        cases hread
        dsimp only
        rw [hvalue]

theorem takeSize_ok_iff {setting : Option Nat} :
    takeSize key args = .ok setting rest ↔ Taken Size.read? key args setting rest := by
  unfold takeSize
  simp only [bind_ok_iff, takeValue_ok_iff]
  constructor
  · rintro ⟨text, mid, htaken, hread⟩
    cases htaken with
    | absent hmem => cases hread; exact .absent hmem
    | @present before after value _ hfirst hvalue =>
      cases hvalue
      dsimp only at hread
      cases hsize : Size.read? value with
      | none => rw [hsize] at hread; cases hread
      | some n =>
        rw [hsize] at hread
        cases hread
        exact .present hfirst hsize
  · intro h
    cases h with
    | absent hmem => exact ⟨none, _, .absent hmem, rfl⟩
    | @present before after value n hfirst hread =>
      refine ⟨some value, _, .present hfirst rfl, ?_⟩
      dsimp only
      rw [hread]
      rfl

theorem takeFlag_ok_iff {flag : String} {found : Bool} :
    takeFlag flag args = .ok found rest ↔ found = args.contains flag ∧ rest = args.erase flag := by
  change EStateM.Result.ok (args.contains flag) (args.erase flag) = .ok found rest ↔ _
  rw [EStateM.Result.ok.injEq]
  exact and_congr eq_comm eq_comm

theorem ofResult_ok_iff {result : Except Error α} {a : α} :
    ofResult result args = .ok a rest ↔ result = .ok a ∧ rest = args := by
  cases result with
  | ok b =>
    change EStateM.Result.ok b args = .ok a rest ↔ _
    rw [EStateM.Result.ok.injEq, Except.ok.injEq]
    exact and_congr_right' eq_comm
  | error e =>
    refine ⟨fun h => ?_, fun h => ?_⟩
    · cases h
    · cases h.1

theorem ofEnvironment_ok_iff {env : Environment} {o : Options} :
    ofEnvironment env = .ok o ↔
      o = (Settings.ofEnvironment env).over default ∧ o.validate = .ok () := by
  unfold ofEnvironment
  rw [mergeEnvironment_eq]
  generalize (Settings.ofEnvironment env).over default = merged
  dsimp only
  cases hvalid : merged.validate with
  | error e =>
    refine ⟨fun h => ?_, ?_⟩
    · cases h
    · rintro ⟨rfl, h⟩
      rw [hvalid] at h
      cases h
  | ok _ =>
    refine ⟨fun h => ?_, ?_⟩
    · cases h
      exact ⟨rfl, hvalid⟩
    · rintro ⟨rfl, -⟩
      rfl

/-- Takes the flags for all settings, one after the other. -/
def takeSettings : Take Settings := do
  let minSize ← takeSize "--gc-min-heap-size"
  let maxSize ← takeSize "--gc-max-heap-size"
  let growth ← takeValue "--gc-growth" "gc_growth_factor" Arguments.readDouble
  let frameLimit ← takeValue "--frame-limit" "frame_limit" Arguments.readCount
  let threadStackSize ← takeSize "--thread-stack-size"
  let noScan ← takeFlag "--no-stack-scan"
  let noInterior ← takeFlag "--no-interior-pointers"
  let abort ← takeFlag "--abort-on-fatal"
  return {
    minSize, maxSize, growth, frameLimit, threadStackSize
    stackScan := if noScan then some false else none
    interiorPointers := if noInterior then some false else none
    abortOnFatal := if abort then some true else none }

theorem takeSettings_ok_iff {flags : Settings} :
    takeSettings args = .ok flags rest ↔ flags.Spelled args rest := by
  unfold takeSettings
  simp only [bind_ok_iff, takeSize_ok_iff, takeValue_ok_iff, takeFlag_ok_iff]
  constructor
  · rintro ⟨minSize, args₁, hmin, maxSize, args₂, hmax, growth, args₃, hgrowth, frameLimit, args₄, hframe,
      stackSize, args₅, hstack, _, _, ⟨rfl, rfl⟩, _, _, ⟨rfl, rfl⟩, _, _, ⟨rfl, rfl⟩, hdone⟩
    cases hdone
    exact ⟨args₁, args₂, args₃, args₄, args₅, _, _, hmin, hmax, hgrowth, hframe, hstack,
      Arguments.switched_iff.mpr ⟨rfl, rfl⟩, Arguments.switched_iff.mpr ⟨rfl, rfl⟩,
      Arguments.switched_iff.mpr ⟨rfl, rfl⟩⟩
  · rintro ⟨args₁, args₂, args₃, args₄, args₅, args₆, args₇, hmin, hmax, hgrowth, hframe, hstack, hscan,
      hinterior, habort⟩
    obtain ⟨hscanned, rfl⟩ := Arguments.switched_iff.mp hscan
    obtain ⟨hmarked, rfl⟩ := Arguments.switched_iff.mp hinterior
    obtain ⟨haborted, rfl⟩ := Arguments.switched_iff.mp habort
    refine ⟨_, _, hmin, _, _, hmax, _, _, hgrowth, _, _, hframe, _, _, hstack, _, _, ⟨rfl, rfl⟩, _, _,
      ⟨rfl, rfl⟩, _, _, ⟨rfl, rfl⟩, ?_⟩
    change EStateM.Result.ok _ _ = _
    rw [← hscanned, ← hmarked, ← haborted]

/-! ## Both layers -/

/-- It makes no difference whether every setting is laid over the options when it has been found, or all
of them in the end. -/
theorem parse_eq (env : Environment) : parse env = do
    let o ← ofResult (ofEnvironment env)
    let flags ← takeSettings
    ofResult (flags.over o).validate
    return flags.over o := by
  unfold parse takeSettings
  refine bind_congr fun o => ?_
  rw [bind_assoc]; refine bind_congr fun minSize => ?_
  rw [bind_assoc]; refine bind_congr fun maxSize => ?_
  rw [bind_assoc]; refine bind_congr fun growth => ?_
  rw [bind_assoc]; refine bind_congr fun frameLimit => ?_
  rw [bind_assoc]; refine bind_congr fun threadStackSize => ?_
  rw [bind_assoc]; refine bind_congr fun noScan => ?_
  rw [bind_assoc]; refine bind_congr fun noInterior => ?_
  rw [bind_assoc]; refine bind_congr fun abort => ?_
  rw [pure_bind]
  cases minSize <;> cases maxSize <;> cases growth <;> cases frameLimit <;> cases threadStackSize <;>
    cases noScan <;> cases noInterior <;> cases abort <;> rfl

/-- Options are accepted exactly if those that the environment asks for are valid, every flag that is there
has a value that can be read, and the options with both layers laid over the defaults are valid. These are
the options of the machine, and the arguments without the flags are left. -/
theorem parse_ok_iff (env : Environment) (args rest : Arguments) (o : Options) :
    parse env args = .ok o rest ↔
      ((Settings.ofEnvironment env).over default).validate = .ok () ∧
        ∃ flags : Settings, flags.Spelled args rest ∧
          o = flags.over ((Settings.ofEnvironment env).over default) ∧ o.validate = .ok () := by
  rw [parse_eq]
  simp only [bind_ok_iff, ofResult_ok_iff, ofEnvironment_ok_iff, takeSettings_ok_iff]
  constructor
  · rintro ⟨_, _, ⟨⟨rfl, hmerged⟩, rfl⟩, flags, _, hflags, _, _, ⟨hvalid, rfl⟩, hdone⟩
    cases hdone
    exact ⟨hmerged, flags, hflags, rfl, hvalid⟩
  · rintro ⟨hmerged, flags, hflags, rfl, hvalid⟩
    exact ⟨_, _, ⟨⟨rfl, hmerged⟩, rfl⟩, flags, _, hflags, _, _, ⟨hvalid, rfl⟩, rfl⟩

example : ∃ o : Options, parse [] ["--gc-min-heap-size", "8m", "--no-stack-scan", "--threads", "4"] =
    .ok o ["--threads", "4"] := ⟨_, rfl⟩

/-- The smallest heap of two gigabytes is larger than the largest one by default, so it is refused even if
the arguments allow for a larger one and the options with both layers would be valid. -/
theorem environment_checked_alone :
    ∃ flags : Settings, flags.Spelled ["--gc-max-heap-size", "4g"] [] ∧
      (flags.over ((Settings.ofEnvironment [("LISPRT_GC_MIN_HEAP", "2g")]).over default)).validate = .ok () ∧
      ∀ o rest, parse [("LISPRT_GC_MIN_HEAP", "2g")] ["--gc-max-heap-size", "4g"] ≠ .ok o rest := by
  refine ⟨⟨none, some 4294967296, none, none, none, none, none, none⟩, ?_, ?_, fun o rest h => ?_⟩
  · exact takeSettings_ok_iff.mp (by rfl)
  · rfl
  · have hrefused : parse [("LISPRT_GC_MIN_HEAP", "2g")] ["--gc-max-heap-size", "4g"] =
        .error (.invalidOption "gc_max_heap_size"
          "1073741824 (smaller than minimum heap size 2147483648)") ["--gc-max-heap-size", "4g"] := by
      rfl
    rw [hrefused] at h
    cases h

end Options

end Substrate
