import Signet.Config
import Signet.LogFilter
import Signet.Proofs.Toml.Computed

/-! # Configurations read back as they were written

A configuration is written as a document of a value and a table of two more. A library that keeps
each of these entries keeps the whole, and from it reading makes the configuration again. The check
afterwards is the one that every configuration passes that is ever read. -/
namespace Signet.Config

open Toml

theorem ofTable?_table (config : Config) : ofTable? config.table = some config := by
  have hlimit : maxBytesOf? (config.table.lookup "max_bytes") = some config.maxBytes := by
    change (if 0 ≤ (config.maxBytes : Int) then some (config.maxBytes : Int).toNat else none) = _
    rw [if_pos (Int.natCast_nonneg _), Int.toNat_natCast]
  have hlogging : Logging.ofValue? (config.table.lookup "logging") = some config.logging := rfl
  rw [ofTable?, hlimit, hlogging]
  rfl

theorem isBare_keys : Key.IsBare "max_bytes" ∧ Key.IsBare "logging" ∧ Key.IsBare "level" ∧
    Key.IsBare "json" := by
  decide

theorem hasKeys_logging (logging : Logging) : Table.HasKeys logging.table := by
  obtain ⟨-, -, hlevel, hjson⟩ := isBare_keys
  exact ⟨by simp [Logging.table, hlevel, hjson], by simp [Logging.table]⟩

theorem isProper_table (config : Config) : Table.IsProper config.table := by
  obtain ⟨hlimit, hlogging, -, -⟩ := isBare_keys
  refine ⟨⟨by simp [table, hlimit, hlogging], by simp [table]⟩, ?_⟩
  intro key entries h
  simp only [table, List.mem_cons, Prod.mk.injEq, reduceCtorEq, and_false, false_or,
    List.not_mem_nil, or_false] at h
  obtain ⟨-, h⟩ := h
  cases h
  exact hasKeys_logging config.logging

variable {toml : Toml.Library}

theorem keeps_logging (h : toml.KeepsEntries) (logging : Logging) : toml.Keeps logging.table := by
  obtain ⟨-, -, hlevel, hjson⟩ := isBare_keys
  have hproper : Table.IsProper logging.table :=
    ⟨hasKeys_logging logging, fun hmem => by simp [Logging.table] at hmem⟩
  have hplain : Table.IsPlain [("level", .text logging.level)] := by
    simp [Table.IsPlain, Value.IsPlain]
  exact h.append hproper hplain (h.text logging.level hlevel) (h.boolean logging.json hjson)

theorem keeps_table (h : toml.KeepsEntries) {config : Config}
    (hlimit : config.maxBytes ≤ 2 ^ 63 - 1) : toml.Keeps config.table := by
  obtain ⟨hmax, -, -, -⟩ := isBare_keys
  have hproper := isProper_table config
  have hplain : Table.IsPlain [("max_bytes", .integer config.maxBytes)] := by
    simp [Table.IsPlain, Value.IsPlain]
  have hlogging : Table.IsPlain config.logging.table := by
    simp [Table.IsPlain, Value.IsPlain, Logging.table]
  have hback : toml.Keeps [("logging", .table config.logging.table)] :=
    h.table (@Table.IsProper.of_append [_] _ hproper).2.1 hlogging (keeps_logging h config.logging)
  exact h.append hproper hplain (h.integer hmax hlimit) hback

variable {filter : FilterCheck}

theorem validate_eq_ok_iff {config : Config} :
    config.validate filter = .ok () ↔
      config.maxBytes ≠ 0 ∧ filter config.logging.level = .ok () := by
  unfold validate
  split
  · rename_i hzero
    exact ⟨by rintro ⟨⟩, fun h => absurd hzero h.1⟩
  · rename_i hpos
    cases filter config.logging.level <;> simp [Except.mapError, hpos]

theorem ofToml_eq_ok_iff {text : String} {config : Config} :
    ofToml toml filter text = .ok config ↔
      toml.read ofTable? text = .ok config ∧ config.validate filter = .ok () := by
  unfold ofToml
  cases toml.read ofTable? text with
  | error reason =>
    constructor
    · rintro ⟨⟩
    · rintro ⟨⟨⟩, -⟩
  | ok read =>
    show (read.validate filter >>= fun _ => .ok read) = .ok config ↔ _
    cases hvalid : read.validate filter with
    | error e =>
      constructor
      · rintro ⟨⟩
      · rintro ⟨⟨⟩, hconfig⟩
        cases hvalid.symm.trans hconfig
    | ok u =>
      constructor
      · rintro ⟨⟩
        exact ⟨rfl, hvalid⟩
      · rintro ⟨⟨⟩, -⟩
        rfl

/-- A configuration is valid if its limit is not zero and its level is a log filter, whatever log
filters are. A library that keeps entries gives back a valid configuration from its text as it was;
and whatever is read, of any library, is valid. -/
theorem toml_round_trip (toml : Toml.Library) (filter : FilterCheck) :
    (∀ config : Config, config.validate filter = .ok () ↔
      config.maxBytes ≠ 0 ∧ filter config.logging.level = .ok ()) ∧
    (toml.KeepsEntries → ∀ config : Config, config.validate filter = .ok () →
      config.maxBytes ≤ 2 ^ 63 - 1 →
        ∃ text, config.toToml toml = .ok text ∧ ofToml toml filter text = .ok config) ∧
    (∀ text config, ofToml toml filter text = .ok config → config.validate filter = .ok ()) := by
  refine ⟨fun config => validate_eq_ok_iff, ?_, fun text config h => (ofToml_eq_ok_iff.mp h).2⟩
  intro h config hvalid hlimit
  obtain ⟨text, hwrite, hread⟩ := keeps_table h hlimit
  exact ⟨text, hwrite, ofToml_eq_ok_iff.mpr ⟨hread ofTable? config (ofTable?_table config), hvalid⟩⟩

/-- The largest limit, and a level that has triple quotes of both kinds, a backslash, a carriage
return and a line feed. -/
def intricate : Config :=
  ⟨2 ^ 63 - 1, ⟨"codec[a\x7bb='\"'\x7d]=debug,c\'\'\'\"\"\"\\\r\n[d]", true⟩⟩

theorem toml_round_trip_intricate :
    Toml.Library.computed.KeepsEntries ∧
      (∃ text, intricate.toToml .computed = .ok text ∧
        ofToml .computed LogFilter.computed text = .ok intricate) ∧
      validate LogFilter.computed ⟨64, .standard⟩ = .ok () := by
  have hkeeps := Toml.Library.keepsEntries_computed
  obtain ⟨-, hback, hvalid⟩ := toml_round_trip .computed LogFilter.computed
  refine ⟨hkeeps, hback hkeeps _ (validate_eq_ok_iff.mpr ?_) (by decide),
    hvalid "max_bytes = 64" _ (ofToml_eq_ok_iff.mpr ⟨?_, validate_eq_ok_iff.mpr ?_⟩)⟩
  · decide +kernel
  · decide +kernel
  · decide +kernel

end Signet.Config
