import QueryAnalysis.Settings.Document
import QueryAnalysis.Proofs.Toml.Sections

/-!
# Saved settings

Saving does not look at the settings, loading refuses a limit of zero, and whatever a document
leaves out is a default when it is loaded. Still nothing is altered: `Settings.load_saved` says that
settings load back as they were saved, or that they are refused.

Settings are saved as a document of two sections (`Settings.text_eq_ok_iff`), of which the reader
finds every setting again (`parse?_documentText`). That leaves what reading makes of the settings in
the two sections (`Settings.ofEntries?_sections`).
-/

namespace QueryAnalysis.Settings

open Toml

theorem text_eq_ok_iff {s : Settings} {text : String} :
    s.text = .ok text ↔
      (s.metadata.maxCombinations : Int) ≤ Int64.maxValue.toInt ∧ documentText s.sections = text := by
  rw [Settings.text]
  split
  case isTrue h => simp [h]
  case isFalse h => simp [h]

/-! ### Two sections -/

theorem writable_metadataSection {s : MetadataSettings}
    (h : (s.maxCombinations : Int) ≤ Int64.maxValue.toInt) : s.toSection.Writable := by
  have hname : IsBare MetadataSettings.sectionName := by decide +kernel
  have hlimit : IsBare MetadataSettings.limitName := by decide +kernel
  refine ⟨hname, ?_, List.nodup_singleton _⟩
  rw [MetadataSettings.toSection, List.forall_mem_singleton]
  exact ⟨hlimit, h⟩

/-- The names of the semantics of null need no escapes. -/
theorem writable_rangesSection (policy : RangePolicy) : policy.toSection.Writable := by
  have hname : IsBare RangePolicy.sectionName := by decide +kernel
  have hsemantics : IsBare RangePolicy.semanticsName := by decide +kernel
  have hrounding : IsBare RangePolicy.roundingName := by decide +kernel
  have hvalue : (Value.string policy.semantics.name).Writable := by
    cases policy.semantics <;> decide +kernel
  have hnames : [RangePolicy.semanticsName, RangePolicy.roundingName].Nodup := by decide
  refine ⟨hname, ?_, hnames⟩
  rw [RangePolicy.toSection, List.forall_mem_cons, List.forall_mem_singleton]
  exact ⟨⟨hsemantics, hvalue⟩, hrounding, trivial⟩

theorem ofNode?_metadataSection (s : MetadataSettings) :
    MetadataSettings.ofNode? s.toSection.entry.2 = some s := by
  simp [MetadataSettings.toSection, Section.entry, Value.node, MetadataSettings.ofNode?,
    sectionNodes?, setting?, Toml.Node.natural?]

theorem ofNode?_rangesSection (policy : RangePolicy) :
    RangePolicy.ofNode? policy.toSection.entry.2 = some policy := by
  have hnames : (RangePolicy.roundingName == RangePolicy.semanticsName) = false := by decide
  simp [RangePolicy.toSection, Section.entry, Value.node, RangePolicy.ofNode?, sectionNodes?,
    List.lookup_cons, hnames, setting?, Toml.Node.semantics?, Toml.Node.bool?]

theorem ofEntries?_sections (s : Settings) :
    Settings.ofEntries? (s.sections.map Section.entry) = some s := by
  have hnames : (RangePolicy.sectionName == MetadataSettings.sectionName) = false := by decide
  have hentries : s.sections.map Section.entry =
      [(MetadataSettings.sectionName, s.metadata.toSection.entry.2),
        (RangePolicy.sectionName, s.ranges.toSection.entry.2)] := rfl
  rw [hentries, Settings.ofEntries?, List.lookup_cons_self, List.lookup_cons, hnames]
  simp [setting?, ofNode?_metadataSection, ofNode?_rangesSection]

/-! ### Saving and loading -/

theorem load_toUTF8 (text : String) : Settings.load (some text.toUTF8) = Settings.parse text := by
  have hread : String.fromUTF8? text.toUTF8 = some text := by
    unfold String.fromUTF8?
    rw [String.toUTF8_eq_toByteArray, dif_pos text.isValidUTF8]
    rfl
  rw [Settings.load, Option.bind_some, hread]

/-- Reading the saved document gives the settings, if they are valid. -/
theorem load_text {s : Settings}
    (h : (s.metadata.maxCombinations : Int) ≤ Int64.maxValue.toInt) :
    Settings.load (some (documentText s.sections).toUTF8) = s.validate.map fun _ => s := by
  have hwritable : ∀ sect ∈ s.sections, sect.Writable := by
    rw [sections, List.forall_mem_cons, List.forall_mem_singleton]
    exact ⟨writable_metadataSection h, writable_rangesSection s.ranges⟩
  have hnames : [MetadataSettings.sectionName, RangePolicy.sectionName].Nodup := by decide
  have hdocument : parse? (documentText s.sections) = some (s.sections.map Section.entry) :=
    parse?_documentText hwritable hnames
  rw [load_toUTF8, Settings.parse, hdocument, Option.bind_some, ofEntries?_sections]

/-- **Settings load back as they were saved or are refused.** They can be saved if and only if the
limit has 63 bits. What is saved then loads back as the same settings if the limit is positive, and
is refused for the limit if it is zero, so that nothing is ever loaded back as other settings. -/
theorem load_saved (s : Settings) :
    ((∃ text, s.text = .ok text) ↔ (s.metadata.maxCombinations : Int) ≤ Int64.maxValue.toInt) ∧
      ∀ text, s.text = .ok text →
        (0 < s.metadata.maxCombinations → Settings.load (some text.toUTF8) = .ok s) ∧
        (s.metadata.maxCombinations = 0 →
          Settings.load (some text.toUTF8) = .error .limitNotPositive) ∧
        ∀ loaded, Settings.load (some text.toUTF8) = .ok loaded → loaded = s := by
  have hsaved : (∃ text, s.text = .ok text)
      ↔ (s.metadata.maxCombinations : Int) ≤ Int64.maxValue.toInt :=
    ⟨fun ⟨_, htext⟩ => (text_eq_ok_iff.mp htext).1, fun h => ⟨_, text_eq_ok_iff.mpr ⟨h, rfl⟩⟩⟩
  refine ⟨hsaved, fun text htext => ?_⟩
  obtain ⟨hlimit, rfl⟩ := text_eq_ok_iff.mp htext
  rw [load_text hlimit, Settings.validate, MetadataSettings.validate]
  split
  case isTrue hzero => simp [hzero, Except.map]
  case isFalse hpos => simp [hpos, Nat.pos_of_ne_zero hpos, Except.map]

/-- The settings of a test: with a limit of sixteen and without rounding. -/
theorem load_saved_sixteen :
    let s : Settings := ⟨⟨16⟩, ⟨.matchesNothing, false⟩⟩
    let text := "[metadata]\nmax_unique_key_combinations = 16\n\n[sarg]\ndefault_null_semantics = "
      ++ "\x22NULL_MATCHES_NOTHING\x22\nround_integral_coordinates = false\n"
    s.text = .ok text ∧ 0 < s.metadata.maxCombinations ∧
      Settings.load (some text.toUTF8) = .ok s := by
  intro s text
  have htext : s.text = .ok text := by decide +kernel
  exact ⟨htext, by decide, ((load_saved s).2 text htext).1 (by decide)⟩

end QueryAnalysis.Settings
