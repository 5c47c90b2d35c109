import ChipEight.Settings.Config

/-!
# Proofs/Settings/Resolution — what a configuration resolves to

Every setting has a range, and a value of a record is either in the range of its setting or has
problems, which are those of this value alone.  Hence a record resolves unless one of its values is
out of range, and what it resolves to is what it says, with the defaults for what it does not say.

What has been resolved says every setting and says it within range.  So it resolves to itself, and
overrides over it are refused for their own values only.
-/

namespace ChipEight

/-- A name is looked up among named things as the thing that it names. -/
theorem lookup_named {α : Type} {name : α → String} (hname : Function.Injective name)
    {all : List α} {s : String} {a : α} :
    (all.map fun a => (name a, a)).lookup s = some a ↔ a ∈ all ∧ name a = s := by
  induction all with
  | nil => simp
  | cons b all ih =>
    rw [List.map_cons, List.lookup_cons]
    by_cases hs : s = name b
    · subst hs
      simp only [beq_self_eq_true, Option.some.injEq, List.mem_cons]
      constructor
      · rintro rfl
        exact ⟨.inl rfl, rfl⟩
      · exact fun h => (hname h.2).symm
    · rw [beq_false_of_ne hs, ih, List.mem_cons]
      constructor
      · exact fun h => ⟨.inr h.1, h.2⟩
      · rintro ⟨rfl | h, hn⟩
        · exact absurd hn.symm hs
        · exact ⟨h, hn⟩

/-! ## One setting -/

namespace Setting

variable {α : Type}

/-- The issues that a value given for a setting has. -/
def issues (s : Setting α) (v : Value) : List String :=
  match s.check v with
  | .ok _ => []
  | .error problems => problems.map (Problem.issue s.name)

/-- A setting **has the range** `Admits`, whose values are those that `put` writes: a value of the
range is taken for the one it was written for, any other value has a problem, and the default is in
the range. -/
structure HasRange (s : Setting α) (put : α → Value) (Admits : Value → Prop) : Prop where
  written : ∀ {v}, Admits v → ∃ a, put a = v
  takes : ∀ {a}, Admits (put a) → s.check (put a) = .ok a
  refuses : ∀ {v}, ¬ Admits v → ∃ p problems, s.check v = .error (p :: problems)
  standard : Admits (put s.standard)

/-- A whole number has the problems of the bounds that it is beyond. -/
theorem check_whole_intCast (name : String) (standard least greatest : Nat) (n : Int) :
    (whole name standard least greatest).check (.number (.finite n)) =
      if n < least ∨ greatest < n then
        .error ((if n < least then [.below least] else [])
          ++ if greatest < n then [.above greatest] else [])
      else .ok n.toNat := by
  simp only [whole, Binary64.whole?, whole?_intCast, isBelow, isAbove, intCast_lt_intCast,
    decide_eq_true_eq, Option.isNone_some, Bool.false_eq_true, if_false, List.nil_append]
  by_cases hleast : n < least <;> by_cases hgreatest : greatest < n <;>
    simp only [hleast, hgreatest, or_true, or_false, if_true, if_false, List.append_nil,
      List.cons_append, List.nil_append]

/-- A whole setting has the range of the whole numbers within its bounds. -/
theorem hasRange_whole (name : String) {standard least greatest : Nat} (hleast : least ≤ standard)
    (hgreatest : standard ≤ greatest) :
    (whole name standard least greatest).HasRange (fun n => .number (.finite (n : Int)))
      fun v => ∃ n : Int, least ≤ n ∧ n ≤ greatest ∧ v = .number (.finite n) where
  written := by
    rintro v ⟨n, hn, -, rfl⟩
    exact ⟨n.toNat, by rw [Int.toNat_of_nonneg (by omega)]⟩
  takes := by
    rintro a ⟨n, hleast, hgreatest, hn⟩
    have ha : (a : Int) = n := by
      simpa [Binary64.whole?] using congrArg Binary64.whole? (Value.number.inj hn)
    rw [hn, check_whole_intCast, if_neg (by omega), ← ha, Int.toNat_natCast]
  refuses {v} h := by
    cases v with
    | number x =>
      -- No number at all is not a fraction either: it is refused for its kind.
      by_cases hx : x = .undefined
      · rw [hx]
        exact ⟨_, _, rfl⟩
      cases hwhole : x.whole? with
      | none => simp [whole, hwhole]
      | some n =>
        obtain rfl := Binary64.whole?_eq_some_iff.mp hwhole
        have hbeyond : n < least ∨ greatest < n := by
          rcases Int.lt_or_le n least with hleast | hleast
          · exact .inl hleast
          · exact .inr (Int.not_le.mp fun hgreatest => h ⟨n, hleast, hgreatest, rfl⟩)
        rw [check_whole_intCast, if_pos hbeyond]
        by_cases hn : n < least
        · exact ⟨_, _, by rw [if_pos hn]; rfl⟩
        · exact ⟨_, _, by rw [if_neg hn, if_pos (hbeyond.resolve_left hn)]; rfl⟩
    | null | boolean | text | list | record => exact ⟨_, _, rfl⟩
  standard := ⟨standard, by omega, by omega, rfl⟩

/-- A choice between named values has the range of their names. -/
theorem hasRange_choice (name : String) (standard : α) {all : List α} {nameOf : α → String}
    (hall : ∀ a, a ∈ all) (hname : Function.Injective nameOf) :
    (choice name standard (all.map fun a => (nameOf a, a))).HasRange (fun a => .text (nameOf a))
      fun v => ∃ s ∈ all.map nameOf, v = .text s where
  written := by
    rintro v ⟨s, hs, rfl⟩
    obtain ⟨a, -, rfl⟩ := List.mem_map.mp hs
    exact ⟨a, rfl⟩
  takes {a} _ := by
    have hlookup : (all.map fun a => (nameOf a, a)).lookup (nameOf a) = some a :=
      (lookup_named hname).mpr ⟨hall a, rfl⟩
    simp only [choice, hlookup]
  refuses {v} h := by
    cases v with
    | text s =>
      cases hlookup : (all.map fun a => (nameOf a, a)).lookup s with
      | none => exact ⟨_, _, by simp only [choice, hlookup]; rfl⟩
      | some a =>
        obtain ⟨ha, rfl⟩ := (lookup_named hname).mp hlookup
        exact absurd ⟨_, List.mem_map_of_mem ha, rfl⟩ h
    | null | boolean | number | list | record => exact ⟨_, _, rfl⟩
  standard := ⟨nameOf standard, List.mem_map_of_mem (hall standard), rfl⟩

section

variable {s : Setting α} {put : α → Value} {Admits : Value → Prop} (h : s.HasRange put Admits)

include h

namespace HasRange

theorem check_eq_ok_iff {v : Value} {a : α} : s.check v = .ok a ↔ put a = v ∧ Admits v := by
  constructor
  · intro hcheck
    by_cases hv : Admits v
    · obtain ⟨b, rfl⟩ := h.written hv
      obtain rfl := Except.ok.inj ((h.takes hv).symm.trans hcheck)
      exact ⟨rfl, hv⟩
    · obtain ⟨p, problems, hproblems⟩ := h.refuses hv
      exact nomatch hproblems.symm.trans hcheck
  · rintro ⟨rfl, hv⟩
    exact h.takes hv

/-- A value has no issue exactly if it is in the range. -/
theorem issues_eq_nil_iff {v : Value} : s.issues v = [] ↔ Admits v := by
  by_cases hv : Admits v
  · obtain ⟨a, rfl⟩ := h.written hv
    simp only [issues, h.takes hv, hv]
  · obtain ⟨p, problems, hproblems⟩ := h.refuses hv
    simp only [issues, hproblems, hv, List.map_cons, List.cons_ne_nil]

/-- What a setting of a record resolves to is what is given for it, or its default. -/
theorem resolve_eq_ok_iff {fields : List (String × Value)} {a : α} :
    s.resolve fields = .ok a ↔
      let given := (fields.lookup s.name).getD (put s.standard)
      put a = given ∧ Admits given := by
  -- A value that is missing might as well have been given as the default.
  rw [← h.check_eq_ok_iff, resolve]
  cases fields.lookup s.name with
  | none => simp only [Option.getD_none, h.takes h.standard, Except.ok.injEq]
  | some v =>
    simp only [Option.getD_some]
    cases s.check v <;> simp only [Except.ok.injEq, reduceCtorEq]

end HasRange

end

/-- **Every issue names the setting** whose value has it. -/
theorem eq_issue_of_mem_issues {s : Setting α} {v : Value} {text : String} (h : text ∈ s.issues v) :
    ∃ p, text = Problem.issue s.name p := by
  unfold issues at h
  split at h
  · exact nomatch h
  · obtain ⟨p, -, rfl⟩ := List.mem_map.mp h
    exact ⟨p, rfl⟩

/-- The issues of a setting of a record are those of the value given for it. -/
theorem issuesOf_resolve (s : Setting α) (fields : List (String × Value)) :
    issuesOf (s.resolve fields) = (fields.lookup s.name).elim [] s.issues := by
  rw [resolve]
  cases fields.lookup s.name with
  | none => rfl
  | some v =>
    simp only [Option.elim_some, issues]
    cases s.check v <;> rfl

end Setting

/-! ## The four settings -/

theorem DrawMode.mem_all (m : DrawMode) : m ∈ all := by cases m <;> decide

theorem DrawMode.name_injective : Function.Injective name := by
  intro m n h
  cases m <;> cases n <;> first | rfl | exact absurd h (by decide)

theorem Level.mem_all (l : Level) : l ∈ all := by cases l <;> decide

theorem Level.ofName?_name (l : Level) : ofName? l.name = some l := by cases l <;> rfl

theorem Level.name_injective : Function.Injective name := fun l m h =>
  Option.some.inj ((ofName?_name l).symm.trans ((congrArg ofName? h).trans (ofName?_name m)))

namespace Config

/-- The settings of a configuration. -/
inductive Entry where
  | instructionsPerFrame
  | drawMode
  | stackDepth
  | logLevel
  deriving DecidableEq

namespace Entry

/-- All settings, in the order in which they are checked. -/
def all : List Entry := [.instructionsPerFrame, .drawMode, .stackDepth, .logLevel]

def name : Entry → String
  | .instructionsPerFrame => "instructionsPerFrame"
  | .drawMode => "drawMode"
  | .stackDepth => "stackDepth"
  | .logLevel => "logLevel"

/-- The value that stands for a setting that is not given. -/
def standard : Entry → Value
  | .instructionsPerFrame => .number (.finite (8 : Int))
  | .drawMode => .text "set"
  | .stackDepth => .number (.finite (16 : Int))
  | .logLevel => .text "info"

/-- Is a value in the range of a setting? -/
def Admits : Entry → Value → Prop
  | .instructionsPerFrame, v => ∃ n : Int, 1 ≤ n ∧ n ≤ 1000 ∧ v = .number (.finite n)
  | .drawMode, v => ∃ s ∈ ["set", "xor"], v = .text s
  | .stackDepth, v => ∃ n : Int, 12 ≤ n ∧ n ≤ 16 ∧ v = .number (.finite n)
  | .logLevel, v =>
    ∃ s ∈ ["fatal", "error", "warn", "info", "debug", "trace", "silent"], v = .text s

/-- What the values of a setting mean. -/
def Meaning : Entry → Type
  | .instructionsPerFrame | .stackDepth => Nat
  | .drawMode => DrawMode
  | .logLevel => Level

/-- How a setting is checked. -/
def setting : (k : Entry) → Setting k.Meaning
  | .instructionsPerFrame => instructionsPerFrameSetting
  | .drawMode => drawModeSetting
  | .stackDepth => stackDepthSetting
  | .logLevel => logLevelSetting

/-- The value with a meaning. -/
def put : (k : Entry) → k.Meaning → Value
  | .instructionsPerFrame => fun n : Nat => .number (.finite (n : Int))
  | .drawMode => fun m : DrawMode => .text m.name
  | .stackDepth => fun n : Nat => .number (.finite (n : Int))
  | .logLevel => fun l : Level => .text l.name

@[simp] theorem setting_name (k : Entry) : k.setting.name = k.name := by cases k <;> rfl

theorem put_standard (k : Entry) : k.put k.setting.standard = k.standard := by cases k <;> rfl

theorem hasRange (k : Entry) : k.setting.HasRange k.put k.Admits := by
  cases k with
  | instructionsPerFrame => exact Setting.hasRange_whole _ (by decide) (by decide)
  | drawMode => exact Setting.hasRange_choice _ _ DrawMode.mem_all DrawMode.name_injective
  | stackDepth => exact Setting.hasRange_whole _ (by decide) (by decide)
  | logLevel => exact Setting.hasRange_choice _ _ Level.mem_all Level.name_injective

/-- The issues of a value that is given for a setting. -/
def issues (k : Entry) (v : Value) : List String := k.setting.issues v

/-- The value of a setting in a record: what is given for it, or its default. -/
def given (k : Entry) (fields : List (String × Value)) : Value :=
  (fields.lookup k.name).getD k.standard

end Entry

/-- What a configuration has for a setting. -/
def has (c : Config) : (k : Entry) → k.Meaning
  | .instructionsPerFrame => c.instructionsPerFrame
  | .drawMode => c.drawMode
  | .stackDepth => c.stackDepth
  | .logLevel => c.logLevel

/-- A setting of a configuration, as a value. -/
def get (c : Config) (k : Entry) : Value := k.put (c.has k)

theorem lookup_toFields (c : Config) (k : Entry) : c.toFields.lookup k.name = some (c.get k) := by
  cases k <;> rfl

/-- A record resolves to what its settings resolve to, one by one. -/
theorem ofFields_eq_ok_iff_resolve {fields : List (String × Value)} {c : Config} :
    ofFields fields = .ok c ↔ ∀ k : Entry, k.setting.resolve fields = .ok (c.has k) := by
  constructor
  · intro h
    unfold ofFields at h
    dsimp only at h
    split at h
    · case h_1 hperFrame hmode hdepth hlevel =>
      obtain rfl := Except.ok.inj h
      intro k
      cases k with
      | instructionsPerFrame => exact hperFrame
      | drawMode => exact hmode
      | stackDepth => exact hdepth
      | logLevel => exact hlevel
    · exact nomatch h
  · intro h
    have hperFrame : instructionsPerFrameSetting.resolve fields = .ok c.instructionsPerFrame :=
      h .instructionsPerFrame
    have hmode : drawModeSetting.resolve fields = .ok c.drawMode := h .drawMode
    have hdepth : stackDepthSetting.resolve fields = .ok c.stackDepth := h .stackDepth
    have hlevel : logLevelSetting.resolve fields = .ok c.logLevel := h .logLevel
    simp only [ofFields, hperFrame, hmode, hdepth, hlevel]

/-- A record that is refused is refused for the issues of its values, setting by setting. -/
theorem eq_invalid_of_ofFields {fields : List (String × Value)} {err : ConfigError}
    (h : ofFields fields = .error err) :
    err = .invalid (Entry.all.flatMap fun k => (fields.lookup k.name).elim [] k.issues) := by
  have hissues (k : Entry) :
      (fields.lookup k.name).elim [] k.issues = issuesOf (k.setting.resolve fields) := by
    rw [Setting.issuesOf_resolve, Entry.setting_name]
    rfl
  unfold ofFields at h
  dsimp only at h
  split at h
  · exact nomatch h
  · rw [← Except.error.inj h]
    simp only [hissues, Entry.all, List.flatMap_cons, List.flatMap_nil, List.append_nil,
      List.append_assoc]
    rfl

/-- **A record resolves to a configuration** exactly if every setting of the configuration is what
the record says for it, and in range. -/
theorem ofFields_eq_ok_iff {fields : List (String × Value)} {c : Config} :
    ofFields fields = .ok c ↔
      ∀ k : Entry, c.get k = k.given fields ∧ k.Admits (k.given fields) := by
  rw [ofFields_eq_ok_iff_resolve]
  refine forall_congr' fun k => ?_
  rw [k.hasRange.resolve_eq_ok_iff, k.setting_name, k.put_standard]
  rfl

/-- A record whose settings are all in range resolves. -/
theorem exists_ofFields_iff {fields : List (String × Value)} :
    (∃ c, ofFields fields = .ok c) ↔ ∀ k : Entry, k.Admits (k.given fields) := by
  constructor
  · rintro ⟨c, h⟩ k
    exact (ofFields_eq_ok_iff.mp h k).2
  · intro h
    have hwritten (k : Entry) : ∃ a, k.put a = k.given fields := k.hasRange.written (h k)
    obtain ⟨perFrame, hperFrame⟩ := hwritten .instructionsPerFrame
    obtain ⟨mode, hmode⟩ := hwritten .drawMode
    obtain ⟨depth, hdepth⟩ := hwritten .stackDepth
    obtain ⟨level, hlevel⟩ := hwritten .logLevel
    refine ⟨⟨perFrame, mode, depth, level⟩, ofFields_eq_ok_iff.mpr fun k => ⟨?_, h k⟩⟩
    cases k with
    | instructionsPerFrame => exact hperFrame
    | drawMode => exact hmode
    | stackDepth => exact hdepth
    | logLevel => exact hlevel

/-- A setting of a record is in range unless the record says something else for it. -/
theorem Entry.admits_given_iff {k : Entry} {fields : List (String × Value)} :
    k.Admits (k.given fields) ↔ ∀ v, fields.lookup k.name = some v → k.Admits v := by
  rw [given]
  cases fields.lookup k.name with
  | none => exact ⟨fun _ => nofun, fun _ => k.put_standard ▸ k.hasRange.standard⟩
  | some v => simp only [Option.getD_some, Option.some.injEq, forall_eq']

theorem exists_error_ofFields_iff {fields : List (String × Value)} :
    (∃ err, ofFields fields = .error err) ↔
      ∃ k : Entry, ∃ v, fields.lookup k.name = some v ∧ ¬ k.Admits v := by
  have hrefused : (∃ err, ofFields fields = .error err) ↔ ¬ ∃ c, ofFields fields = .ok c := by
    cases ofFields fields <;> simp
  simp only [hrefused, exists_ofFields_iff, Entry.admits_given_iff, Classical.not_forall,
    exists_prop]

/-- What is wrong with a value that is to be a configuration: its settings in order, each with the
issues that the value given for it has, or that it is no record. -/
def complaints : Value → List String
  | .record fields => Entry.all.flatMap fun k => (fields.lookup k.name).elim [] k.issues
  | v => ["config: Expected object, received " ++ v.kind]

section

variable {v : Value}

/-- **Only a value that is no record, or a record with a value out of range, is refused.** -/
theorem exists_error_resolve_iff :
    (∃ err, resolve v = .error err) ↔
      (∀ fields, v ≠ .record fields)
        ∨ ∃ k : Entry, ∃ value, v.get? k.name = some value ∧ ¬ k.Admits value := by
  cases v with
  | record fields =>
    rw [resolve, exists_error_ofFields_iff]
    exact ⟨.inr, fun h => h.resolve_left fun h => h fields rfl⟩
  | null | boolean | number | text | list =>
    exact ⟨fun _ => .inl fun _ => nofun, fun _ => ⟨_, rfl⟩⟩

theorem eq_invalid_of_resolve {err : ConfigError} (h : resolve v = .error err) :
    err = .invalid (complaints v) := by
  cases v with
  | record fields => exact eq_invalid_of_ofFields h
  | null | boolean | number | text | list => exact (Except.error.inj h).symm

/-- A configuration that a value resolves to is what the value says, with defaults for what it does
not say, and is within range. -/
theorem get_of_resolve {c : Config} (h : resolve v = .ok c) (k : Entry) :
    c.get k = (v.get? k.name).getD k.standard ∧ k.Admits (c.get k) := by
  cases v with
  | record fields =>
    obtain ⟨hget, hadmits⟩ := ofFields_eq_ok_iff.mp h k
    exact ⟨hget, hget ▸ hadmits⟩
  | null | boolean | number | text | list => exact nomatch h

/-- A configuration whose settings are in range resolves to itself. -/
theorem resolve_toFields {c : Config} (h : ∀ k : Entry, k.Admits (c.get k)) :
    resolve (.record c.toFields) = .ok c := by
  refine ofFields_eq_ok_iff.mpr fun k => ?_
  rw [Entry.given, lookup_toFields, Option.getD_some]
  exact ⟨rfl, h k⟩

end

/-! ## Overrides -/

section

variable {base : Config} (hbase : ∀ k : Entry, k.Admits (base.get k))
  (overrides : List (String × Value))

theorem lookup_override (k : Entry) :
    (Value.override overrides base.toFields).lookup k.name
      = some ((overrides.lookup k.name).getD (base.get k)) := by
  rw [Value.override, List.lookup_append, lookup_toFields, Option.or_some]

include hbase

/-- Overrides are refused for what is wrong with them, whatever they are laid over. -/
theorem complaints_override :
    complaints (.record (Value.override overrides base.toFields))
      = complaints (.record overrides) := by
  have hissues (k : Entry) :
      ((Value.override overrides base.toFields).lookup k.name).elim [] k.issues
        = (overrides.lookup k.name).elim [] k.issues := by
    rw [lookup_override]
    cases overrides.lookup k.name with
    | none => exact k.hasRange.issues_eq_nil_iff.mpr (hbase k)
    | some v => rfl
  simp only [complaints, hissues]

theorem exists_error_override_iff :
    (∃ err, resolve (.record (Value.override overrides base.toFields)) = .error err) ↔
      ∃ k : Entry, ∃ value, overrides.lookup k.name = some value ∧ ¬ k.Admits value := by
  rw [resolve, exists_error_ofFields_iff]
  refine exists_congr fun k => ?_
  rw [lookup_override]
  cases overrides.lookup k.name with
  | none => simp [hbase k]
  | some v => simp only [Option.getD_some]

end

end Config

end ChipEight
