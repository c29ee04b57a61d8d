import Admission.Config.Document
import Admission.Proofs.Toml.Documents

/-!
# Configurations survive being written and read

A configuration is written with all its settings but a log file that is not set. What is written is
read as the table of its sections, each section of the configuration finds its own in there, and
each setting its value: numbers, because a word or a byte fits where it came from; texts, because
they are read as they were; and the log file that is left out, because having none is the default.

So reading a written configuration gives it back, and all that can keep it from being accepted is
that it is invalid.

## Main definitions

* `OnlyInvalid`: a check that fails with nothing but invalid settings

## Main results

* `Config.readSection_tableOf`: a section is found with all of its settings
* `Config.ofTable?_tableOf`: a configuration is read from the table of its sections
* `Config.onlyInvalid_validate`: a check of a configuration finds nothing but invalid settings
* `Config.parse_render`: written configurations are read back
* `Config.load_save`: so are saved ones
-/

namespace Admission

open Toml (Section Setting Table Value AreDistinct entriesOf isBare tableOf)

/-! ## Checks -/

/-- A check fails with nothing but invalid settings. -/
def OnlyInvalid {α : Type} (x : Except Error α) : Prop :=
  ∀ e, x = .error e → ∃ s, e = .invalidConfig s

namespace OnlyInvalid

variable {α β : Type}

theorem ok (a : α) : OnlyInvalid (.ok a) := by
  rintro e ⟨⟩

theorem error (s : InvalidSetting) : OnlyInvalid (.error (.invalidConfig s) : Except Error α) := by
  rintro e ⟨⟩
  exact ⟨s, rfl⟩

theorem require (p : Prop) [Decidable p] (s : InvalidSetting) : OnlyInvalid (require p s) := by
  unfold Admission.require
  split
  · exact ok ()
  · exact error s

theorem bind {x : Except Error α} {f : α → Except Error β} (hx : OnlyInvalid x)
    (hf : ∀ a, OnlyInvalid (f a)) : OnlyInvalid (x >>= f) := by
  cases x with
  | error e =>
    rintro e' ⟨⟩
    exact hx e rfl
  | ok a => exact hf a

end OnlyInvalid

theorem WindowConfig.onlyInvalid_span (c : WindowConfig) : OnlyInvalid c.span := by
  unfold WindowConfig.span
  simp only
  split
  · exact .ok _
  · exact .error _

namespace Config

/-- **A check of a configuration** fails with nothing but invalid settings. -/
theorem onlyInvalid_validate (c : Config) : OnlyInvalid c.validate :=
  have hspan := c.rolling.onlyInvalid_span
  have hrolling : OnlyInvalid c.rolling.validate :=
    (OnlyInvalid.require _ _).bind fun _ => (OnlyInvalid.require _ _).bind fun _ =>
      hspan.bind fun _ => .ok _
  have hlimiter : OnlyInvalid c.rateLimiter.validate :=
    (OnlyInvalid.require _ _).bind fun _ => .require _ _
  have hbreaker : OnlyInvalid c.circuitBreaker.validate :=
    (OnlyInvalid.require _ _).bind fun _ => (OnlyInvalid.require _ _).bind fun _ => .require _ _
  have htimeout : OnlyInvalid c.timeout.validate :=
    (OnlyInvalid.require _ _).bind fun _ => .require _ _
  hrolling.bind fun _ => (OnlyInvalid.require _ _).bind fun _ =>
    (OnlyInvalid.require _ _).bind fun _ =>
    hlimiter.bind fun _ => hbreaker.bind fun _ => htimeout.bind fun _ =>
      hspan.bind fun _ => .require _ _

/-! ## What is written -/

theorem isBare_layout : ∀ e ∈ layout, isBare e.1 = true ∧ ∀ key ∈ e.2, isBare key = true := by
  decide

theorem mem_layout : ∀ name ∈ layout.map Prod.fst, (name, keysOf name) ∈ layout := by
  decide

theorem lookup_layout : ∀ name ∈ layout.map Prod.fst, (layout.lookup name).isSome = true := by
  decide

theorem nodup_layout : (layout.map Prod.fst).Nodup ∧ ∀ e ∈ layout, e.2.Nodup := by
  decide

theorem names_sections (c : Config) : c.sections.map Section.name = layout.map Prod.fst := rfl

/-- The keys of a section are among those that are looked for in it, in the same order. -/
theorem keys_sections {c : Config} {s : Section} (h : s ∈ c.sections) :
    (s.name, keysOf s.name) ∈ layout ∧ (s.settings.map Prod.fst).Sublist (keysOf s.name) := by
  refine ⟨mem_layout _ (names_sections c ▸ List.mem_map_of_mem h), ?_⟩
  have hfile : ∀ file : Option String,
      ((file.map fun f => ("log_file", Setting.text f)).toList.map Prod.fst).Sublist
        ["log_file"] := by
    rintro (_ | f)
    · exact List.nil_sublist _
    · exact List.Sublist.refl _
  simp only [sections, List.mem_cons, List.not_mem_nil, or_false] at h
  rcases h with rfl | rfl | rfl | rfl | rfl | rfl | rfl
  case inr.inr.inr.inr.inr.inr =>
    rw [List.map_append]
    exact (List.Sublist.refl ["level", "json"]).append (hfile c.logging.logFile)
  all_goals exact List.Sublist.refl _

theorem isBare_sections {c : Config} {s : Section} (h : s ∈ c.sections) : s.IsBare := by
  obtain ⟨hlayout, hkeys⟩ := keys_sections h
  obtain ⟨hname, hbare⟩ := isBare_layout _ hlayout
  exact ⟨hname, fun e he => hbare e.1 (hkeys.subset (List.mem_map_of_mem he))⟩

theorem areDistinct_sections (c : Config) : AreDistinct c.sections where
  names := nodup_layout.1
  keys := fun _ h =>
    have ⟨hlayout, hkeys⟩ := keys_sections h
    hkeys.nodup (nodup_layout.2 _ hlayout)

/-! ## What is read -/

/-- A section is found under its name, with all of its settings. -/
theorem readSection_tableOf {α : Type} {c : Config} {s : Section} (h : s ∈ c.sections)
    (read : (String → Option Value) → Option α) (default : α) :
    readSection (tableOf c.sections) s.name (keysOf s.name) read default =
      read (Table.get? (entriesOf s.settings)) := by
  have hget : (tableOf c.sections).get? s.name = some (.table .header (entriesOf s.settings)) :=
    Toml.Table.get?_of_mem (Toml.keys_tableOf _ ▸ (areDistinct_sections c).names)
      (List.mem_map_of_mem h)
  have hkeys : (entriesOf s.settings).all
      (fun e => (keysOf s.name).contains e.1 || e.2.isMachineSized) = true := by
    rw [List.all_eq_true]
    intro e he
    have hmem : e.1 ∈ keysOf s.name := (keys_sections h).2.subset
      (Toml.keys_entriesOf s.settings ▸ List.mem_map_of_mem he)
    simp [hmem]
  rw [readSection, hget]
  simp only [Value.given?, if_pos hkeys, Option.bind_some]

/-! ### Settings -/

section

variable {α : Type} (read : Value → Option α) (default : α)

/-- A setting that was left out has its default. -/
@[simp] theorem setting_nil (key : String) :
    setting (Table.get? (entriesOf [])) key read default = some default := rfl

/-- A setting is found under its key. -/
@[simp] theorem setting_cons_self (key : String) (v : Setting) (rest : List (String × Setting)) :
    setting (Table.get? (entriesOf ((key, v) :: rest))) key read default =
      read (.scalar v.toScalar) := by
  simp [setting, entriesOf, Table.get?]

@[simp] theorem setting_cons_of_ne {key other : String} (h : other ≠ key) (v : Setting)
    (rest : List (String × Setting)) :
    setting (Table.get? (entriesOf ((other, v) :: rest))) key read default =
      setting (Table.get? (entriesOf rest)) key read default := by
  have hne : (key == other) = false := beq_eq_false_iff_ne.mpr h.symm
  simp [setting, entriesOf, Table.get?, List.lookup_cons, hne]

end

@[simp] theorem word?_word (n : UInt64) : Value.word? (.scalar (word n).toScalar) = some n := by
  simp [word, Setting.toScalar, Value.word?, UInt64.toNat_lt_size]

@[simp] theorem byte?_number (n : UInt8) :
    Value.byte? (.scalar (Setting.number n.toNat).toScalar) = some n := by
  simp [Setting.toScalar, Value.byte?, UInt8.toNat_lt_size]

@[simp] theorem text?_text (s : String) : Value.text?
    (.scalar (Setting.text s).toScalar) = some s := rfl

@[simp] theorem truth?_truth (b : Bool) : Value.truth?
    (.scalar (Setting.truth b).toScalar) = some b := rfl

@[simp] theorem level?_name (l : Level) :
    Value.level? (.scalar (Setting.text l.name).toScalar) = some l := Level.ofName?_name l

/-! ### Sections -/

/-- **A configuration is read from the table of its sections.** -/
theorem ofTable?_tableOf (c : Config) : ofTable? (tableOf c.sections) = some c := by
  have hsection {α : Type} (i : Nat) (hi : i < 7) (read : (String → Option Value) → Option α)
      (default : α) :=
    readSection_tableOf (List.getElem_mem (show i < c.sections.length from hi)) read default
  have hrolling : readSection (tableOf c.sections) "rolling" (keysOf "rolling") readRolling {} =
      some c.rolling :=
    (hsection 0 (by decide) readRolling {}).trans (by simp [sections, readRolling])
  have hlatency : readSection (tableOf c.sections) "latency" (keysOf "latency") readLatency {} =
      some c.latency :=
    (hsection 1 (by decide) readLatency {}).trans (by simp [sections, readLatency])
  have hsemaphore :
      readSection (tableOf c.sections) "semaphore" (keysOf "semaphore") readSemaphore {} =
        some c.semaphore :=
    (hsection 2 (by decide) readSemaphore {}).trans (by simp [sections, readSemaphore])
  have hlimiter : readSection (tableOf c.sections) "rate_limiter" (keysOf "rate_limiter")
      readRateLimiter {} = some c.rateLimiter :=
    (hsection 3 (by decide) readRateLimiter {}).trans (by simp [sections, readRateLimiter])
  have hbreaker : readSection (tableOf c.sections) "circuit_breaker" (keysOf "circuit_breaker")
      readBreaker {} = some c.circuitBreaker :=
    (hsection 4 (by decide) readBreaker {}).trans (by simp [sections, readBreaker])
  have htimeout : readSection (tableOf c.sections) "timeout" (keysOf "timeout") readTimeout {} =
      some c.timeout :=
    (hsection 5 (by decide) readTimeout {}).trans (by simp [sections, readTimeout])
  have hlogging : readSection (tableOf c.sections) "logging" (keysOf "logging") readLogging {} =
      some c.logging := by
    refine (hsection 6 (by decide) readLogging {}).trans ?_
    rcases hlog : c.logging with ⟨level, json, _ | file⟩
    · simp [sections, readLogging, hlog]
    · simp [sections, readLogging, hlog]
  have hnames : (tableOf c.sections).all
      (fun e => (layout.lookup e.1).isSome || e.2.isMachineSized) = true := by
    rw [List.all_eq_true]
    intro e he
    have hname : e.1 ∈ layout.map Prod.fst := by
      rw [← names_sections c, ← Toml.keys_tableOf]
      exact List.mem_map_of_mem he
    rw [lookup_layout e.1 hname, Bool.true_or]
  rw [ofTable?, show guard _ = some () from if_pos hnames]
  simp [hrolling, hlatency, hsemaphore, hlimiter, hbreaker, htimeout, hlogging]

/-! ## The round trip -/

/-- **Written configurations are read back.** Reading what was written gives the configuration and
nothing else, and it is accepted unless it is invalid, for the reason that its check gives. -/
theorem parse_render (c : Config) :
    (Toml.parse c.render).bind ofTable? = some c ∧
      (c.validate = .ok () → parse c.render = .ok c) ∧
      ∀ e, c.validate = .error e → parse c.render = .error e ∧ ∃ s, e = .invalidConfig s := by
  have hread : (Toml.parse c.render).bind ofTable? = some c := by
    rw [render, Toml.parse_write (fun _ h => isBare_sections h) (areDistinct_sections c),
      Option.bind_some, ofTable?_tableOf]
  refine ⟨hread, fun h => ?_, fun e h => ⟨?_, onlyInvalid_validate c e h⟩⟩
  · simp only [parse, hread, h]
    rfl
  · simp only [parse, hread, h]
    rfl

/-- **Saved configurations are read back** as they were written. -/
theorem load_save {c : Config} {text : String} (h : c.save true = .ok text) :
    load (some text.toUTF8) = parse c.render := by
  cases h
  have hbytes : String.fromUTF8? c.render.toUTF8 = some c.render := by
    simp only [String.fromUTF8?, String.toUTF8_eq_toByteArray, dif_pos c.render.isValidUTF8]
    rfl
  simp only [load, Option.bind_some, hbytes]

end Config

end Admission
