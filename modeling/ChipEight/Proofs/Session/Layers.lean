import ChipEight.Proofs.Session.Mirror
import ChipEight.Proofs.Settings.Resolution

/-!
# Proofs/Session/Layers — the layers of a session's settings

The settings of a session come from the environment, with overrides laid over them.  The variables
that are set and not empty make a record, and the environment resolves as this record does, if no
number in it is misread.  The overrides are a record laid over what the environment has resolved to.
-/

namespace ChipEight

/-! ## The environment -/

theorem Problem.issue_noInteger (name raw : String) :
    issue name (.noInteger raw) = name ++ ": expected an integer, got \"" ++ raw ++ "\"" := by
  have hsplit : ": expected an integer, got \"" = ": " ++ "expected an integer, got \"" := by
    decide
  -- For any texts: in a literal the rewriting would look for the texts it is made of.
  have hassoc (colon words mark : String) :
      name ++ colon ++ (words ++ raw ++ mark) = name ++ (colon ++ words) ++ raw ++ mark := by
    simp only [String.append_assoc]
  rw [hsplit]
  exact hassoc _ _ _

/-- The variable of a setting. -/
def Config.Entry.variableName : Config.Entry → String
  | .instructionsPerFrame => Environment.perFrameVariable
  | .drawMode => Environment.drawModeVariable
  | .stackDepth => Environment.stackDepthVariable
  | .logLevel => Environment.logLevelVariable

/-- The value that a text stands for: a number is read as a literal. -/
def Config.Entry.read : Config.Entry → String → Value
  | .instructionsPerFrame, raw | .stackDepth, raw => .number (Literal.read raw)
  | .drawMode, raw | .logLevel, raw => .text raw

namespace Environment

open Config (Entry)

variable (env : List (String × String))

/-- The record of the variables that are set and not empty. -/
def object : List (String × Value) :=
  Entry.all.flatMap fun k =>
    ((text? env k.variableName).map fun raw => (k.name, k.read raw)).toList

/-- The text of a numeric variable that is set and not empty, but is no whole number. -/
def misread? (k : Entry) : Option String :=
  (text? env k.variableName).filter fun raw => (Literal.read raw).whole?.isNone

/-- The first numeric variable that is no whole number, and its text. -/
def firstMisread? : Option (Entry × String) :=
  [Entry.instructionsPerFrame, .stackDepth].findSome? fun k => (misread? env k).map (k, ·)

variable {env}

theorem numberField_of_misread {k : Entry} {raw : String} (h : misread? env k = some raw) :
    numberField env k.variableName k.name
      = .error (.invalid [Problem.issue k.variableName (.noInteger raw)]) := by
  obtain ⟨htext, hraw⟩ := Option.filter_eq_some_iff.mp h
  have hwhole : (Literal.read raw).whole? = none := Option.isNone_iff_eq_none.mp hraw
  simp only [numberField, htext, hwhole]

theorem numberField_of_read {k : Entry} (h : misread? env k = none) :
    numberField env k.variableName k.name = .ok
      ((text? env k.variableName).map fun raw => (k.name, .number (Literal.read raw))).toList := by
  rw [numberField]
  cases htext : text? env k.variableName with
  | none => rfl
  | some raw =>
    rw [misread?, htext, Option.filter_eq_none_iff] at h
    cases hx : (Literal.read raw).whole? with
    | none => exact absurd (by rw [hx]; rfl) (h raw rfl)
    | some n =>
      simp only [hx]
      rfl

theorem textField_eq (name setting : String) :
    textField env name setting
      = ((text? env name).map fun raw => (setting, .text raw)).toList := by
  rw [textField]
  cases text? env name <;> rfl

variable (env)

/-- The variables give their record, unless a number is misread. -/
theorem fields_eq :
    fields env =
      match firstMisread? env with
      | none => .ok (object env)
      | some (k, raw) => .error (.invalid [Problem.issue k.variableName (.noInteger raw)]) := by
  rw [firstMisread?, List.findSome?_cons, List.findSome?_cons, List.findSome?_nil, fields]
  cases hperFrame : misread? env .instructionsPerFrame with
  | some raw =>
    have hfield : numberField env perFrameVariable "instructionsPerFrame" = _ :=
      numberField_of_misread hperFrame
    rw [hfield]
    rfl
  | none =>
    have hfield : numberField env perFrameVariable "instructionsPerFrame" = _ :=
      numberField_of_read hperFrame
    rw [hfield]
    cases hdepth : misread? env .stackDepth with
    | some raw =>
      have hfield : numberField env stackDepthVariable "stackDepth" = _ :=
        numberField_of_misread hdepth
      rw [hfield]
      rfl
    | none =>
      have hfield : numberField env stackDepthVariable "stackDepth" = _ :=
        numberField_of_read hdepth
      rw [hfield]
      simp only [textField_eq, object, Entry.all, List.flatMap_cons, List.flatMap_nil,
        List.append_nil, List.append_assoc]
      rfl

/-- **An environment resolves as its record does**, unless a number is misread. -/
theorem config_eq :
    config env =
      match firstMisread? env with
      | none => Config.resolve (.record (object env))
      | some (k, raw) =>
        .error (.invalid [k.variableName ++ ": expected an integer, got \"" ++ raw ++ "\""]) := by
  rw [config, fields_eq]
  cases firstMisread? env with
  | none => rfl
  | some misread =>
    simp only [Problem.issue_noInteger]
    rfl

variable {env}

theorem admits_of_config {base : Config} (h : config env = .ok base) (k : Entry) :
    k.Admits (base.get k) := by
  rw [config_eq] at h
  split at h
  · exact (Config.get_of_resolve h k).2
  · exact nomatch h

/-- Overrides are laid over what an environment resolves to. -/
theorem configWith_eq {base : Config} (h : config env = .ok base)
    (overrides : List (String × Value)) :
    configWith env (.record overrides)
      = Config.resolve (.record (Value.override overrides base.toFields)) := by
  rw [configWith, h]
  rfl

end Environment

/-! ## The layers of a session's settings -/

open Config in
/-- **What settings resolve to**, layer by layer.  A value is refused exactly if it is no record or
gives a setting a value out of range; the issues are those of each setting's own value, in the order
of the settings, and a value has some exactly if it is out of range.  Otherwise every setting is in
range and is what is given for it or its default, and it stays so when it is resolved again.

An environment resolves as the record of its variables does, unless a number among them is misread:
then the first such number is all that is reported.  Overrides over an environment that resolves are
refused for their own values only, and then there is no emulator.  Otherwise they win setting by
setting, and the emulator has these settings, as a further resolution does not change them. -/
theorem Config.resolve_layers (v : Value) (env : List (String × String))
    (overrides : List (String × Value)) (random : RandomSource) :
    ((∃ err, resolve v = .error err) ↔
        (∀ fields, v ≠ .record fields)
          ∨ ∃ k : Entry, ∃ value, v.get? k.name = some value ∧ ¬ k.Admits value)
    ∧ (∀ err, resolve v = .error err → err = .invalid (complaints v))
    ∧ (∀ (k : Entry) (value : Value), k.issues value = [] ↔ k.Admits value)
    ∧ (∀ c, resolve v = .ok c →
        (∀ k : Entry, c.get k = (v.get? k.name).getD k.standard ∧ k.Admits (c.get k))
          ∧ resolve (.record c.toFields) = .ok c)
    ∧ (Environment.config env =
        match Environment.firstMisread? env with
        | none => resolve (.record (Environment.object env))
        | some (k, raw) =>
          .error (.invalid [k.variableName ++ ": expected an integer, got \"" ++ raw ++ "\""]))
    ∧ ∀ base, Environment.config env = .ok base →
        let resolved := Environment.configWith env (.record overrides)
        let s := Session.start env (.record overrides) random
        ((∃ err, resolved = .error err) ↔
            ∃ k : Entry, ∃ value, overrides.lookup k.name = some value ∧ ¬ k.Admits value)
        ∧ (∀ err, resolved = .error err →
            err = .invalid (complaints (.record overrides))
              ∧ s.emulator = none ∧ s.shown.fault = some err.message)
        ∧ ∀ c, resolved = .ok c →
            (∀ k : Entry,
              c.get k = (overrides.lookup k.name).getD (base.get k) ∧ k.Admits (c.get k))
            ∧ resolve (.record c.toFields) = .ok c
            ∧ ∃ e, s.emulator = some e ∧ e.config = c := by
  refine ⟨exists_error_resolve_iff, fun _ => eq_invalid_of_resolve,
    fun k _ => k.hasRange.issues_eq_nil_iff,
    fun c hc => ⟨get_of_resolve hc, resolve_toFields fun k => (get_of_resolve hc k).2⟩,
    Environment.config_eq env, fun base hbase => ?_⟩
  intro resolved s
  have hadmits := Environment.admits_of_config hbase
  have hresolved : resolved = resolve (.record (Value.override overrides base.toFields)) :=
    Environment.configWith_eq hbase overrides
  rw [hresolved]
  refine ⟨exists_error_override_iff hadmits overrides, fun err herr => ?_, fun c hc => ?_⟩
  · have hs : s = _ := Session.start_of_error (hresolved.trans herr) random
    rw [hs, ← complaints_override hadmits]
    exact ⟨eq_invalid_of_resolve herr, rfl, rfl⟩
  · have hs : s = _ := Session.start_of_config (hresolved.trans hc) random
    have hget (k : Entry) := get_of_resolve hc k
    refine ⟨fun k => ⟨?_, (hget k).2⟩, resolve_toFields fun k => (hget k).2, _, congrArg _ hs, ?_⟩
    · rw [(hget k).1, Value.get?, Value.fields, lookup_override, Option.getD_some]
    · exact (Emulator.settled_reached ..).settings

/-- A record with a mode and a depth that are both out of range. -/
def Config.twoOutOfRange : Value :=
  .record [("stackDepth", .number (.finite (8 : Int))), ("drawMode", .text "blend")]

/-- Two values out of range are both reported, and a mode laid over a number of the environment
leaves that number. -/
theorem Config.resolve_layers_both :
    let env := [(Environment.perFrameVariable, "20")]
    let overrides := [("drawMode", Value.text "xor")]
    resolve twoOutOfRange = .error (.invalid
      ["drawMode: Invalid enum value. Expected 'set' | 'xor', received 'blend'",
       "stackDepth: Number must be greater than or equal to 12"])
    ∧ ∃ c e, Environment.configWith env (.record overrides) = .ok c
        ∧ c.get .drawMode = .text "xor"
        ∧ c.get .instructionsPerFrame = .number (.finite (20 : Int))
        ∧ (Session.start env (.record overrides) (.cycle [7])).emulator = some e
        ∧ e.config = c := by
  intro env overrides
  have hbase : Environment.config env = .ok ⟨20, .set, 16, .info⟩ := rfl
  have hresolved : Environment.configWith env (.record overrides) = .ok ⟨20, .xor, 16, .info⟩ :=
    rfl
  obtain ⟨hrefused, hissues, -, -, -, hlayers⟩ :=
    resolve_layers twoOutOfRange env overrides (.cycle [7])
  obtain ⟨-, -, hconfig⟩ := hlayers _ hbase
  obtain ⟨hget, -, e, he, hsettings⟩ := hconfig _ hresolved
  have hblend : ¬ Entry.Admits .drawMode (.text "blend") := by
    simp [Entry.Admits]
  obtain ⟨err, herr⟩ := hrefused.mpr (.inr ⟨.drawMode, .text "blend", rfl, hblend⟩)
  have hcomplaints : complaints twoOutOfRange =
      ["drawMode: Invalid enum value. Expected 'set' | 'xor', received 'blend'",
       "stackDepth: Number must be greater than or equal to 12"] := by decide
  refine ⟨?_, _, e, hresolved, (hget .drawMode).1, (hget .instructionsPerFrame).1, he, hsettings⟩
  rw [herr, hissues err herr, hcomplaints]

end ChipEight
