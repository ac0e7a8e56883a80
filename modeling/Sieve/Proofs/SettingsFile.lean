/-
# Settings in their file

What is written for settings reads as the same settings: each that is set has its value, and each
that is unset stays unset.  The file for a new user, in which every setting stands in a comment,
reads as nothing set.

* `Settings.ofText?_toText`: reading undoes writing;
* `Site.settings_toText`, `Site.settings_template`: the settings in force behind the two ways in
  which the file is written.
-/
import Sieve.Proofs.TomlLines
import Sieve.Settings.Site
import Mathlib.Data.List.Forall2

namespace Sieve

namespace Settings

open Toml (Statement Item Entries IsLine IsValue)

/-! ## 1. The lines as statements -/

/-- The statement of a setting, or nothing if it is unset. -/
def settingStatement {α : Type} (key : Text) (item : α → Item) : Option α → List Statement
  | none => []
  | some a => [.entry [] key (item a)]

/-- The statements of the file that holds the settings. -/
def statements (s : Settings) : List Statement :=
  settingStatement "version".toList (fun n : Nat => .int n) (some s.version) ++
    [.blank, .header [] "filter".toList] ++
    settingStatement "normalize".toList .bool s.normalize ++
    settingStatement "strict".toList .bool s.strict ++ [.blank, .header [] "page".toList] ++
    settingStatement "size".toList (fun n : Nat => .int n) s.size ++
    [.blank, .header [] "output".toList] ++ settingStatement "color".toList .bool s.color

theorem isLine_settingLine {α : Type} {key : Text} {write : α → Text} {item : α → Item}
    (value : Option α) (hk : Toml.IsBareKey key)
    (hv : ∀ a ∈ value, IsValue (write a) (item a)) :
    List.Forall₂ IsLine (settingLine key write value) (settingStatement key item value) := by
  cases value with
  | none => exact .nil
  | some a => exact .cons (Toml.isLine_entry hk (hv a rfl)) .nil

theorem isValue_boolText (b : Bool) : IsValue (boolText b) (.bool b) := by
  cases b
  · exact Toml.isValue_false
  · exact Toml.isValue_true

/-- The lines between two sections. -/
theorem isLine_section (name : Text) (hname : Toml.IsBareKey name) :
    List.Forall₂ IsLine [[], '[' :: name ++ [']']] [.blank, .header [] name] :=
  .cons Toml.isLine_nil (.cons (Toml.isLine_header hname) .nil)

/-- Settings that have room in the file: the size of a page is an integer of 64 bits with a
sign, and the version one of 32 bits without. -/
structure Fits (s : Settings) : Prop where
  size : Text.fitsInt64 (s.size.getD 0) = true
  version : s.version < UInt32.size

theorem Fits.isLine_lines {s : Settings} (h : s.Fits) :
    List.Forall₂ IsLine s.lines s.statements := by
  have version : Text.fitsInt64 s.version = true := by
    have := h.version
    simp only [UInt32.size] at this
    simp only [Text.fitsInt64, Bool.and_eq_true, decide_eq_true_eq]
    omega
  have size : ∀ n ∈ s.size, IsValue (Text.decimal n) (.int n) := by
    intro n hn
    have := h.size
    rw [hn] at this
    exact Toml.isValue_decimal this
  have head : List.Forall₂ IsLine (settingLine "version".toList Text.decimal (some s.version)) _ :=
    isLine_settingLine _ ⟨by decide, by decide⟩ fun _ ha =>
      Option.some.inj ha ▸ Toml.isValue_decimal version
  have normalize : List.Forall₂ IsLine (settingLine "normalize".toList boolText s.normalize) _ :=
    isLine_settingLine _ ⟨by decide, by decide⟩ fun b _ => isValue_boolText b
  have strict : List.Forall₂ IsLine (settingLine "strict".toList boolText s.strict) _ :=
    isLine_settingLine _ ⟨by decide, by decide⟩ fun b _ => isValue_boolText b
  have size : List.Forall₂ IsLine (settingLine "size".toList Text.decimal s.size) _ :=
    isLine_settingLine _ ⟨by decide, by decide⟩ size
  have color : List.Forall₂ IsLine (settingLine "color".toList boolText s.color) _ :=
    isLine_settingLine _ ⟨by decide, by decide⟩ fun b _ => isValue_boolText b
  have filter := isLine_section "filter".toList ⟨by decide, by decide⟩
  have page := isLine_section "page".toList ⟨by decide, by decide⟩
  have output := isLine_section "output".toList ⟨by decide, by decide⟩
  have first := List.rel_append (List.rel_append (List.rel_append head filter) normalize) strict
  have second := List.rel_append (List.rel_append first page) size
  exact List.rel_append (List.rel_append second output) color

/-! ## 2. The statements as a document -/

/-- What a section holds for a setting. -/
def settingEntry {α : Type} (key : Text) (item : α → Item) : Option α → Entries
  | none => []
  | some a => [(key, item a)]

/-- The document that the file comes to. -/
def document (s : Settings) : Entries :=
  [("version".toList, .int s.version),
    ("filter".toList, .table .header (settingEntry "normalize".toList .bool s.normalize ++
      settingEntry "strict".toList .bool s.strict)),
    ("page".toList, .table .header (settingEntry "size".toList (fun n : Nat => .int n) s.size)),
    ("output".toList, .table .header (settingEntry "color".toList .bool s.color))]

theorem foldlM_statements (s : Settings) :
    s.statements.foldlM Toml.State.add? ⟨[], []⟩ = some ⟨s.document, ["output".toList]⟩ := by
  obtain ⟨version, normalize, strict, size, color⟩ := s
  cases normalize <;> cases strict <;> cases size <;> cases color <;> rfl

theorem nat?_int (n : Nat) : nat? (.int n) = some n := by
  simp [nat?]

theorem ofDocument?_document {s : Settings} (h : s.version < UInt32.size) :
    ofDocument? s.document = some s := by
  obtain ⟨version, normalize, strict, size, color⟩ := s
  have readVersion : version? (document ⟨version, normalize, strict, size, color⟩) =
      some version := by
    show (nat? (.int version)).filter (· < UInt32.size) = _
    rw [nat?_int, Option.filter_some, if_pos (by simpa using h)]
  have readNormalize : optional bool? "normalize".toList
      (settingEntry "normalize".toList .bool normalize ++
        settingEntry "strict".toList .bool strict) = some normalize := by
    cases normalize <;> cases strict <;> rfl
  have readStrict : optional bool? "strict".toList
      (settingEntry "normalize".toList .bool normalize ++
        settingEntry "strict".toList .bool strict) = some strict := by
    cases normalize <;> cases strict <;> rfl
  have readSize : optional nat? "size".toList
      (settingEntry "size".toList (fun n : Nat => .int n) size) = some size := by
    cases size with
    | none => rfl
    | some n =>
      show (nat? (.int n)).map some = _
      rw [nat?_int, Option.map_some]
  have readColor : optional bool? "color".toList
      (settingEntry "color".toList .bool color) = some color := by
    cases color <;> rfl
  unfold ofDocument?
  rw [readVersion]
  show ((optional bool? "normalize".toList _).bind _) = _
  rw [readNormalize]
  show ((optional bool? "strict".toList _).bind _) = _
  rw [readStrict]
  show ((optional nat? "size".toList _).bind _) = _
  rw [readSize]
  show ((optional bool? "color".toList _).bind _) = _
  rw [readColor]
  rfl

/-! ## 3. Reading what was written -/

/-- **Reading undoes writing.** -/
theorem ofText?_toText {s : Settings} (h : s.Fits) : ofText? s.toText = some s := by
  have mark : (Text.unlines s.lines).head? ≠ some '\uFEFF' := by
    show some 'v' ≠ some '\uFEFF'
    decide
  unfold ofText? toText
  rw [Toml.read?_unlines h.isLine_lines mark, foldlM_statements]
  exact ofDocument?_document h.version

/-- The statements of the file for a new user. -/
def templateStatements : List Statement :=
  [.blank, .blank, .blank, .entry [] "version".toList (.int 1), .blank, .blank,
    .header [] "filter".toList, .blank, .blank, .blank, .blank, .header [] "page".toList, .blank,
    .blank, .blank, .header [] "output".toList, .blank]

theorem isLine_comment {s : Text} (h : s.all Toml.isPrinted = true) : IsLine (comment s) .blank :=
  Toml.isLine_comment (s := ' ' :: s) (by simpa [Toml.isPrinted] using h)

theorem isLine_templateLines : List.Forall₂ IsLine templateLines templateStatements := by
  have version : IsLine "version = 1".toList (.entry [] "version".toList (.int 1)) :=
    Toml.isLine_entry (k := "version".toList) (v := Text.decimal 1) ⟨by decide, by decide⟩
      (Toml.isValue_decimal (by decide))
  have filter := Toml.isLine_header (k := "filter".toList) ⟨by decide, by decide⟩
  have page := Toml.isLine_header (k := "page".toList) ⟨by decide, by decide⟩
  have output := Toml.isLine_header (k := "output".toList) ⟨by decide, by decide⟩
  unfold templateLines templateStatements
  exact .cons (isLine_comment (by simp [Toml.isPrinted])) <| .cons Toml.isLine_nil <|
    .cons (isLine_comment (by simp [Toml.isPrinted])) <| .cons version <| .cons Toml.isLine_nil <|
    .cons (isLine_comment (by simp [Toml.isPrinted])) <| .cons filter <|
    .cons (isLine_comment (by simp [Toml.isPrinted])) <|
    .cons (isLine_comment (by simp [Toml.isPrinted])) <| .cons Toml.isLine_nil <|
    .cons (isLine_comment (by simp [Toml.isPrinted])) <| .cons page <|
    .cons (isLine_comment (by simp [Toml.isPrinted])) <| .cons Toml.isLine_nil <|
    .cons (isLine_comment (by simp [Toml.isPrinted])) <| .cons output <|
    .cons (isLine_comment (by simp [Toml.isPrinted])) .nil

/-- In the file for a new user nothing is set. -/
theorem ofText?_template : ofText? template = some unset := by
  have mark : (Text.unlines templateLines).head? ≠ some '\uFEFF' := by
    show some '#' ≠ some '\uFEFF'
    decide
  unfold ofText? template
  rw [Toml.read?_unlines isLine_templateLines mark]
  rfl

/-- Settings of the current version are left as they are. -/
theorem migrate_of_version {s : Settings} (h : s.version = currentVersion) :
    s.migrate = .ok s := by
  obtain ⟨version, normalize, strict, size, color⟩ := s
  cases h
  rfl

/-- What comes out of migration is of the current version. -/
theorem version_of_migrate {s t : Settings} (h : s.migrate = .ok t) :
    t.version = currentVersion := by
  unfold migrate at h
  split at h
  · cases h
  · cases h
    rfl

end Settings

namespace Site

theorem settings_text {content : Text} {s : Settings} (h : Settings.ofText? content = some s) :
    (text content).settings = s.migrate := by
  simp [settings, load, h]

/-- The settings that were written are in force. -/
theorem settings_toText {s : Settings} (hversion : s.version = Settings.currentVersion)
    (hsize : Text.fitsInt64 (s.size.getD 0) = true) : (text s.toText).settings = .ok s := by
  have fits : s.Fits := ⟨hsize, by rw [hversion]; decide⟩
  rw [settings_text (Settings.ofText?_toText fits)]
  exact Settings.migrate_of_version hversion

/-- Behind the file for a new user nothing is set. -/
theorem settings_template : (text Settings.template).settings = .ok .unset := by
  rw [settings_text Settings.ofText?_template]
  rfl

/-- Settings in force are of the current version, whatever the file says. -/
theorem version_of_settings {site : Site} {s : Settings} (h : site.settings = .ok s) :
    s.version = Settings.currentVersion := by
  unfold settings at h
  split at h
  · cases h
    rfl
  · exact Settings.version_of_migrate h
  · cases h

end Site

end Sieve
