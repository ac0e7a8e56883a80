/-
# Sort specifications, written and read

Sort keys can be written as a specification again: each column with a hyphen in front if its
direction is descending, and commas between.  Reading it gives the keys back unless a column is
one that no specification can name: an empty one, one with a blank at either end or a comma in
it, or an ascending one with a hyphen in front.  What is read never has such a column, so the
keys that have a specification are exactly those that are read from one.

* `SortBy.spec`: keys as a specification;
* `SortKey.Readable`: the keys that a specification can name;
* `SortBy.read_spec`: reading what is written, and writing what is read.
-/
import Sieve.Proofs.Preparation
import Sieve.Sort

namespace Sieve

open SortBy (readKey)

/-! ## 1. Writing -/

/-- The key as an entry of a specification. -/
def SortKey.entry (k : SortKey) : Text :=
  match k.direction with
  | .ascending => k.column
  | .descending => '-' :: k.column

/-- The keys as a specification. -/
def SortBy.spec (s : SortBy) : Text := [','].intercalate (s.keys.map SortKey.entry)

/-! ## 2. Keys that a specification can name -/

/-- A key whose column is not empty, has no blank at either end and no comma, and cannot be taken
for a descending one if it is ascending. -/
structure SortKey.Readable (k : SortKey) : Prop where
  named : k.column ≠ []
  starts : ∀ c ∈ k.column.head?, isBlank c = false
  ends : ∀ c ∈ k.column.getLast?, isBlank c = false
  noComma : ',' ∉ k.column
  unmarked : k.direction = .ascending → k.column.head? ≠ some '-'

theorem Text.trim_infix (s : Text) : trim s <:+: s :=
  (trim_prefix_trimStart s).isInfix.trans (List.dropWhile_suffix isBlank).isInfix

/-- A text without a hyphen in front is an ascending column. -/
theorem SortBy.readKey_ascending {s : Text} (h : s.head? ≠ some '-') :
    readKey s = ⟨s, .ascending⟩ := by
  unfold readKey
  split
  · exact absurd rfl h
  · rfl

namespace SortKey

variable {k : SortKey}

theorem Readable.notMem_entry (h : k.Readable) : ',' ∉ k.entry := by
  unfold entry
  split
  · exact h.noComma
  · simpa using h.noComma

/-- Reading an entry undoes writing it. -/
theorem Readable.readKey_entry (h : k.Readable) : readKey (Text.trim k.entry) = k := by
  have hcolumn : Text.trim k.column = k.column := Text.trim_eq_self h.starts h.ends
  obtain ⟨column, direction⟩ := k
  cases direction with
  | ascending =>
    rw [show entry ⟨column, .ascending⟩ = column from rfl, hcolumn]
    exact SortBy.readKey_ascending (h.unmarked rfl)
  | descending =>
    have hlast : ('-' :: column).getLast? = column.getLast? := by
      rw [List.getLast?_cons_of_ne_nil h.named]
    have hentry : Text.trim ('-' :: column) = '-' :: column :=
      Text.trim_eq_self (by simp; decide) (hlast ▸ h.ends)
    rw [show entry ⟨column, .descending⟩ = '-' :: column from rfl, hentry, readKey, hcolumn]

/-- What a piece of a specification is read as, if it names a column at all. -/
theorem readable_readKey {piece : Text} (hcomma : ',' ∉ piece)
    (hnamed : (readKey (Text.trim piece)).column ≠ []) :
    (readKey (Text.trim piece)).Readable := by
  obtain ⟨hstarts, hends⟩ := Text.trim_ends piece
  have htrimmed : ',' ∉ Text.trim piece := fun h => hcomma ((Text.trim_infix piece).subset h)
  generalize Text.trim piece = s at hnamed hstarts hends htrimmed ⊢
  unfold readKey at hnamed ⊢
  split at hnamed
  · next column =>
    have hinner : ',' ∉ Text.trim column := fun h =>
      htrimmed (List.mem_cons_of_mem '-' ((Text.trim_infix column).subset h))
    exact ⟨hnamed, (Text.trim_ends column).1, (Text.trim_ends column).2, hinner, nofun⟩
  · next hmark =>
    refine ⟨hnamed, hstarts, hends, htrimmed, fun _ hhead => ?_⟩
    obtain ⟨column, hcolumn⟩ := List.head?_eq_some_iff.mp hhead
    exact hmark column hcolumn

end SortKey

/-! ## 3. Whole specifications -/

namespace SortBy

/-- Every key that is read can be written. -/
theorem readable_of_mem_read {t : Text} {k : SortKey} (h : k ∈ (read t).keys) : k.Readable := by
  obtain ⟨hread, hnamed⟩ := List.mem_filter.mp h
  obtain ⟨piece, hpiece, rfl⟩ := List.mem_map.mp hread
  exact SortKey.readable_readKey (Text.notMem_of_mem_split hpiece) (by simpa using hnamed)

/-- Keys that can be written are read as they were. -/
theorem read_spec_of_readable {s : SortBy} (h : ∀ k ∈ s.keys, k.Readable) : read s.spec = s := by
  obtain ⟨keys⟩ := s
  by_cases hne : keys = []
  · subst hne
    rfl
  have hsplit : Text.split ',' (spec ⟨keys⟩) = keys.map SortKey.entry :=
    Text.split_intercalate (by simpa using hne)
      (List.forall_mem_map.mpr fun k hk => (h k hk).notMem_entry)
  have hentries : (keys.map SortKey.entry).map (fun e => readKey (Text.trim e)) = keys := by
    have hsame := List.map_congr_left fun k hk => (h k hk).readKey_entry
    rw [List.map_map]
    exact hsame.trans (List.map_id' keys)
  rw [read, hsplit, hentries, List.filter_eq_self.mpr fun k hk => by simpa using (h k hk).named]

/-- **Sort specifications round-trip.**  Keys are read back from what they are written as exactly
if a specification can name each of them, which holds of all keys that are read. -/
theorem read_spec (s : SortBy) (t : Text) :
    (read s.spec = s ↔ ∀ k ∈ s.keys, k.Readable) ∧
      (∀ k ∈ (read t).keys, k.Readable) ∧ read (read t).spec = read t := by
  have hread : ∀ k ∈ (read t).keys, k.Readable := fun k => readable_of_mem_read
  refine ⟨⟨fun hs k hk => ?_, read_spec_of_readable⟩, hread, read_spec_of_readable hread⟩
  rw [← hs] at hk
  exact readable_of_mem_read hk

/-- Entries without a column are gone, and a hyphen behind the first belongs to the column. -/
example : (read " , -a ,--x,- ,b c".toList).spec = "-a,--x,b c".toList := by decide +kernel

end SortBy

end Sieve
