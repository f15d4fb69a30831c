/-
**Settings survive their file.**

Settings are written as one line for every setting that has a value, and a line that is not there
stands for what it stands for in settings that never had one.  Reading finds the name of every line
and gives back the settings, whatever they are; only then are they checked, so that settings that
cannot be used are written and refused.  Nothing is written of settings with a number that the
document has no room for.

* `Settings.fileText`, `Settings.assignments` — the text of a file, and its lines;
* `Settings.readDocument?_fileText`, `Settings.ofEntries?_entries` — what a file says, and the
  settings made of it;
* `Settings.ofFile_fileText` — **a file gives back its settings**, or the reason why they are not
  valid;
* `Settings.writeFile_eq_ok` — what a file holds that was written;
* `Settings.writeFile_valid` — **what becomes of valid settings and of the file**;
* `Settings.writeStandard_cases` — what becomes of the file of a map that sets none.
-/

import Strata.Proofs.Bytes
import Strata.Proofs.Toml.Document
import Strata.Settings.File

set_option relaxedAutoImplicit false
set_option autoImplicit false

namespace Strata

namespace Settings

variable {s : Settings}

/-! ### The numbers of settings -/

/-- The numbers of settings. -/
def numbers (s : Settings) : List ℕ := s.maxValuesPerKey.toList ++ [s.waitIncrement]

theorem fits_iff {n : ℕ} : fits n = true ↔ n ≤ 2 ^ 63 - 1 := by
  rw [fits, decide_eq_true_iff, Number.greatestInt64]
  omega

theorem fits_numbers_iff :
    (s.maxValuesPerKey.all fits && fits s.waitIncrement) = true ↔
      ∀ n ∈ s.numbers, n ≤ 2 ^ 63 - 1 := by
  cases hmax : s.maxValuesPerKey <;> simp [numbers, hmax, fits_iff]

theorem toFile_of_lt (reason : String) (h : ∃ n ∈ s.numbers, 2 ^ 63 - 1 < n) :
    s.toFile reason = .error (.configuration s!"Failed to serialize config: {reason}") := by
  obtain ⟨n, hn, hlt⟩ := h
  exact if_neg fun hfits => absurd (fits_numbers_iff.1 hfits n hn) (not_le.2 hlt)

/-! ### The lines of a file -/

/-- The text of the file of settings. -/
def fileText (s : Settings) : String :=
  textLine keyCodecName s.keyCodec ++ textLine valueCodecName s.valueCodec ++
    s.maxValuesPerKey.elim "" (numberLine maxValuesPerKeyName) ++
    numberLine waitIncrementName s.waitIncrement

theorem toFile_of_fits (reason : String) (h : ∀ n ∈ s.numbers, n ≤ 2 ^ 63 - 1) :
    s.toFile reason = .ok s.fileText :=
  if_pos (fits_numbers_iff.2 h)

/-- What the file of settings says. -/
def entries (s : Settings) : Toml.Entries :=
  [(keyCodecName, .scalar (.text s.keyCodec)), (valueCodecName, .scalar (.text s.valueCodec))] ++
    s.maxValuesPerKey.toList.map (fun n => (maxValuesPerKeyName, .scalar (.integer n))) ++
    [(waitIncrementName, .scalar (.integer s.waitIncrement))]

/-- The names of the settings. -/
def names : List String := [keyCodecName, valueCodecName, maxValuesPerKeyName, waitIncrementName]

theorem isBare_of_mem_names {name : String} (h : name ∈ names) : Toml.IsBare name := by
  simp only [names, List.mem_cons, List.not_mem_nil, or_false] at h
  rcases h with rfl | rfl | rfl | rfl <;> exact ⟨by decide, by rfl⟩

/-- A line with a text. -/
def textAssignment (name value : String) (h : name ∈ names) : Toml.Assignment :=
  ⟨name, Toml.writeText value, .scalar (.text value), isBare_of_mem_names h,
    Toml.reads_text value⟩

/-- A line with a number. -/
def numberAssignment (name : String) (h : name ∈ names) (n : ℕ) (hn : n ≤ 2 ^ 63 - 1) :
    Toml.Assignment :=
  ⟨name, Nat.repr n, .scalar (.integer n), isBare_of_mem_names h,
    Toml.reads_number n (of_decide_eq_true (fits_iff.2 hn))⟩

/-- The lines of a file. -/
def assignments (s : Settings) (h : ∀ n ∈ s.numbers, n ≤ 2 ^ 63 - 1) : List Toml.Assignment :=
  [textAssignment keyCodecName s.keyCodec (by decide),
    textAssignment valueCodecName s.valueCodec (by decide)] ++
  s.maxValuesPerKey.toList.pmap (numberAssignment maxValuesPerKeyName (by decide))
    (fun n hn => h n (List.mem_append_left _ hn)) ++
  [numberAssignment waitIncrementName (by decide) s.waitIncrement
    (h _ (List.mem_append_right _ (List.mem_singleton_self _)))]

theorem map_entry_assignments (h : ∀ n ∈ s.numbers, n ≤ 2 ^ 63 - 1) :
    (s.assignments h).map Toml.Assignment.entry = s.entries := by
  simp [assignments, entries, Toml.Assignment.entry, textAssignment, numberAssignment,
    List.map_pmap]

/-- No name stands on two lines. -/
theorem nodup_assignments (h : ∀ n ∈ s.numbers, n ≤ 2 ^ 63 - 1) :
    ((s.assignments h).map Toml.Assignment.name).Nodup := by
  have hnames : names.Nodup := by decide
  refine hnames.sublist ?_
  cases hmax : s.maxValuesPerKey <;>
    simp [assignments, hmax, textAssignment, numberAssignment, names]

theorem toList_fileText (h : ∀ n ∈ s.numbers, n ≤ 2 ^ 63 - 1) :
    s.fileText.toList = (s.assignments h).flatMap fun a => a.line.toList := by
  cases hmax : s.maxValuesPerKey <;>
    simp [fileText, assignments, hmax, Toml.Assignment.line, textAssignment, numberAssignment,
      textLine, numberLine]

/-- **The document of a file** is what it says. -/
theorem readDocument?_fileText (h : ∀ n ∈ s.numbers, n ≤ 2 ^ 63 - 1) :
    Toml.readDocument? s.fileText = some s.entries := by
  rw [Toml.readDocument?_lines (toList_fileText h) (nodup_assignments h), map_entry_assignments h]

/-- **Settings are made again of what their file says**, of one that says no number of values
too. -/
theorem ofEntries?_entries (s : Settings) : ofEntries? s.entries = some s := by
  obtain ⟨keyCodec, valueCodec, maxValuesPerKey, waitIncrement⟩ := s
  cases maxValuesPerKey with
  | none => rfl
  | some n => rfl

/-- **A file gives back its settings**, or the reason why they are not valid. -/
theorem ofFile_fileText (h : ∀ n ∈ s.numbers, n ≤ 2 ^ 63 - 1) :
    ofFile (some (Bytes.ofText s.fileText)) =
      (s.validate.map fun _ => s).mapError FileFault.invalid := by
  have hread : (Toml.readDocument? s.fileText).bind ofEntries? = some s := by
    rw [readDocument?_fileText h, Option.bind_some, ofEntries?_entries]
  simp only [ofFile, Option.bind_some, Bytes.text?_ofText, hread]
  cases s.validate <;> rfl

/-! ### Writing a file -/

variable (disk : Disk) (path reason : String) (before : Option Bytes)

theorem writeFile_of_lt (h : ∃ n ∈ s.numbers, 2 ^ 63 - 1 < n) :
    writeFile disk path reason s before =
      (.error (.configuration s!"Failed to serialize config: {reason}"), before) := by
  rw [writeFile, toFile_of_lt reason h]

theorem writeFile_of_fault {cause : String} (h : ∀ n ∈ s.numbers, n ≤ 2 ^ 63 - 1)
    (hfault : (disk.write before (Bytes.ofText s.fileText)).2 = some cause) :
    (writeFile disk path reason s before).1 =
      .error (.io s!"Failed to write config file '{path}': {cause}") := by
  simp only [writeFile, toFile_of_fits reason h, Disk.writeText, hfault]
  rfl

theorem writeFile_of_fits (h : ∀ n ∈ s.numbers, n ≤ 2 ^ 63 - 1)
    (hfault : (disk.write before (Bytes.ofText s.fileText)).2 = none) :
    writeFile disk path reason s before = (.ok (), some (Bytes.ofText s.fileText)) := by
  simp only [writeFile, toFile_of_fits reason h, Disk.writeText, hfault, disk.whole _ _ hfault]

/-- Without a failure the file holds the text of the settings. -/
theorem writeFile_eq_ok (h : (writeFile disk path reason s before).1 = .ok ()) :
    (∀ n ∈ s.numbers, n ≤ 2 ^ 63 - 1) ∧
      (writeFile disk path reason s before).2 = some (Bytes.ofText s.fileText) := by
  have hfits : ∀ n ∈ s.numbers, n ≤ 2 ^ 63 - 1 := by
    by_contra hlarge
    push Not at hlarge
    rw [writeFile_of_lt disk path reason before hlarge] at h
    cases h
  refine ⟨hfits, ?_⟩
  cases hfault : (disk.write before (Bytes.ofText s.fileText)).2 with
  | none => rw [writeFile_of_fits disk path reason before hfits hfault]
  | some cause =>
      rw [writeFile_of_fault disk path reason before hfits hfault] at h
      cases h

/-- **Valid settings survive their file.**  What has been written without a failure is read as the
settings that were written.  A number that the document has no room for is the one reason, apart
from a failure of the disk, why they are not written, and then the file is left as it was. -/
theorem writeFile_valid (hvalid : s.validate = .ok ()) :
    ((writeFile disk path reason s before).1 = .ok () → ∀ otherPath otherReason,
      readFile otherPath otherReason (writeFile disk path reason s before).2 = .ok s) ∧
    ((∃ n ∈ s.numbers, 2 ^ 63 - 1 < n) →
      writeFile disk path reason s before =
        (.error (.configuration s!"Failed to serialize config: {reason}"), before)) ∧
    ((∀ n ∈ s.numbers, n ≤ 2 ^ 63 - 1) →
      (writeFile disk path reason s before).1 = .ok () ∨
        ∃ cause, (disk.write before (Bytes.ofText s.fileText)).2 = some cause ∧
          (writeFile disk path reason s before).1 =
            .error (.io s!"Failed to write config file '{path}': {cause}")) := by
  refine ⟨fun hok otherPath otherReason => ?_, writeFile_of_lt disk path reason before,
    fun hfits => ?_⟩
  · obtain ⟨hfits, hfile⟩ := writeFile_eq_ok disk path reason before hok
    rw [readFile, hfile, ofFile_fileText hfits, hvalid]
    rfl
  · cases hfault : (disk.write before (Bytes.ofText s.fileText)).2 with
    | none => exact Or.inl (by rw [writeFile_of_fits disk path reason before hfits hfault])
    | some cause =>
        exact Or.inr ⟨cause, rfl, writeFile_of_fault disk path reason before hfits hfault⟩

/-- Settings that keep all values of a key, written over those of another map. -/
theorem writeFile_valid_all :
    (⟨"long", "opaque", some 0, 5⟩ : Settings).validate = .ok () ∧
      readFile fileName "" (writeFile Disk.faultless fileName "" ⟨"long", "opaque", some 0, 5⟩
        (some (Bytes.ofText standardText))).2 = .ok ⟨"long", "opaque", some 0, 5⟩ :=
  ⟨rfl, (writeFile_valid Disk.faultless fileName "" (some (Bytes.ofText standardText)) rfl).1 rfl
    fileName ""⟩

/-- **The standard file is kept or written.**  A file that is there stays as it is; where there is
none the standard text is written, or the disk fails. -/
theorem writeStandard_cases : (∃ bytes, before = some bytes ∧
      writeStandard disk path before = (.ok (), some bytes)) ∨
    (before = none ∧ writeStandard disk path before = (.ok (), some (Bytes.ofText standardText))) ∨
    ∃ cause, before = none ∧ (disk.write none (Bytes.ofText standardText)).2 = some cause ∧
      (writeStandard disk path before).1 =
        .error (.io s!"Failed to write default config file '{path}': {cause}") := by
  cases before with
  | some bytes => exact Or.inl ⟨bytes, rfl, rfl⟩
  | none =>
      refine Or.inr ?_
      simp only [writeStandard, Disk.writeText]
      cases hfault : (disk.write none (Bytes.ofText standardText)).2 with
      | none => exact Or.inl ⟨trivial, by rw [disk.whole _ _ hfault]⟩
      | some cause => exact Or.inr ⟨cause, trivial, rfl, rfl⟩

/-- A disk without faults holds the file that was kept. -/
theorem writeStandard_faultless (path : String) (existing : Option String) :
    writeStandard .faultless path (existing.map Bytes.ofText) =
      (.ok (), some (Bytes.ofText (keepFile existing))) := by
  cases existing <;> rfl

end Settings

end Strata
