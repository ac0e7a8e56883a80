/-
# What identifiers and timestamps are written with

An identifier and a timestamp are read in several layouts, and all of them together use few
characters.  A text with any other character in it is neither, so between quotes it is a string:
one backslash in it is enough.

* `Uuid.isPart_of_read?`, `Uuid.read?_eq_none`: the characters of an identifier;
* `Timestamp.Leaves`: what a reader takes off the front of a text holds only characters of
  timestamps, with one lemma for each reader;
* `Timestamp.isPart_of_read?`, `Timestamp.read?_eq_none`: the characters of a timestamp.
-/
import Sieve.Literal.Timestamp
import Sieve.Literal.Uuid
import Sieve.Proofs.Decimal
import Mathlib.Data.List.TakeWhile

namespace Sieve

/-! ## 1. Identifiers -/

/-- A character of a text is a separator or stands in a piece between separators. -/
theorem Text.eq_or_mem_split {sep c : Char} {s : Text} (hc : c ∈ s) :
    c = sep ∨ c ∈ (split sep s).flatten := by
  induction s with
  | nil => cases hc
  | cons d r ih =>
    obtain ⟨piece, more, hpieces⟩ := List.exists_cons_of_ne_nil (split_ne_nil sep r)
    rw [hpieces] at ih
    rw [split, hpieces]
    split
    · next hd =>
      rcases List.mem_cons.mp hc with rfl | hc
      · exact Or.inl hd
      · simpa using ih hc
    · rcases List.mem_cons.mp hc with rfl | hc
      · exact Or.inr (by simp)
      · exact (ih hc).imp_right fun h => List.mem_cons_of_mem d h

namespace Uuid

/-- The characters of identifiers: hexadecimal digits, hyphens, braces, and those of `urn:uuid:`
in any case. -/
def isPart (c : Char) : Bool :=
  (hexValue? c).isSome || "urn:uuid:".toList.contains c.toLower || ['-', '{', '}'].contains c

theorem isPart_of_ofHex? {s : Text} {u : Uuid} (h : ofHex? s = some u) :
    ∀ c ∈ s, isPart c = true := by
  obtain ⟨ds, hds, -⟩ := Option.bind_eq_some_iff.mp h
  clear h
  induction s generalizing ds with
  | nil => simp
  | cons d r ih =>
    simp only [List.mapM_cons, Option.bind_eq_bind, Option.bind_eq_some_iff] at hds
    obtain ⟨v, hv, vs, hvs, -⟩ := hds
    refine List.forall_mem_cons.mpr ⟨?_, ih vs hvs⟩
    simp [isPart, hv]

theorem isPart_of_ofGroups? {s : Text} {u : Uuid} (h : ofGroups? s = some u) :
    ∀ c ∈ s, isPart c = true := by
  unfold ofGroups? at h
  dsimp only at h
  split at h
  · intro c hc
    rcases (Text.eq_or_mem_split hc : c = '-' ∨ _) with rfl | hmem
    · decide
    · exact isPart_of_ofHex? h c hmem
  · cases h

theorem isPart_of_braces {s : Text} (hopen : s.head? = some '{') (hclose : s.getLast? = some '}')
    (hinner : ∀ c ∈ (s.drop 1).dropLast, isPart c = true) : ∀ c ∈ s, isPart c = true := by
  obtain ⟨r, rfl⟩ : ∃ r, s = '{' :: r := List.head?_eq_some_iff.mp hopen
  cases r with
  | nil => cases hclose
  | cons d r =>
    obtain ⟨t, ht⟩ : ∃ t, d :: r = t ++ ['}'] :=
      List.getLast?_eq_some_iff.mp (by simpa using hclose)
    have htext : ∀ c ∈ t, isPart c = true := by simpa [ht] using hinner
    intro c hc
    rw [ht] at hc
    rcases List.mem_cons.mp hc with rfl | hc
    · decide
    rcases List.mem_append.mp hc with hc | hc
    · exact htext c hc
    · rw [List.mem_singleton.mp hc]
      decide

/-- What stands around the groups is braces, or `urn:uuid:` in any case. -/
theorem isPart_of_read? {s : Text} {u : Uuid} (h : read? s = some u) :
    ∀ c ∈ s, isPart c = true := by
  unfold read? at h
  split at h
  · exact isPart_of_ofHex? h
  split at h
  · exact isPart_of_ofGroups? h
  split at h
  · split at h
    · next hbraces => exact isPart_of_braces hbraces.1 hbraces.2 (isPart_of_ofGroups? h)
    · cases h
  split at h
  · split at h
    · next hurn =>
      intro c hc
      rw [← List.take_append_drop 9 s] at hc
      rcases List.mem_append.mp hc with hc | hc
      · have hlower : c.toLower ∈ "urn:uuid:".toList := hurn ▸ List.mem_map_of_mem hc
        simp only [isPart, List.contains_iff_mem.mpr hlower, Bool.or_true, Bool.true_or]
      · exact isPart_of_ofGroups? h c hc
    · cases h
  · cases h

/-- One other character is enough. -/
theorem read?_eq_none {c : Char} (hc : isPart c = false) {s : Text} (hs : c ∈ s) :
    read? s = none :=
  Option.eq_none_iff_forall_ne_some.mpr fun _ h => by
    rw [isPart_of_read? h c hs] at hc
    cases hc

end Uuid

/-! ## 2. Timestamps -/

namespace Timestamp

/-- The characters of timestamps: digits, blanks, and the marks between fields. -/
def isPart (c : Char) : Bool :=
  c.isDigit || isBlank c || ['-', '+', ':', '.', 'T', 't', 'Z', 'z', '\u2212'].contains c

/-- What `s` has more than its rest `r` is written with characters of timestamps. -/
def Leaves (s r : Text) : Prop := ∀ c ∈ s, isPart c = true ∨ c ∈ r

theorem Leaves.refl (s : Text) : Leaves s s := fun _ hc => Or.inr hc

theorem Leaves.trans {s t r : Text} (h : Leaves s t) (h' : Leaves t r) : Leaves s r := by
  intro c hc
  rcases h c hc with hp | ht
  · exact Or.inl hp
  · exact h' c ht

instance : Trans Leaves Leaves Leaves := ⟨Leaves.trans⟩

theorem leaves_append {u : Text} (hu : ∀ c ∈ u, isPart c = true) (r : Text) :
    Leaves (u ++ r) r := by
  intro c hc
  rcases List.mem_append.mp hc with hc | hc
  · exact Or.inl (hu c hc)
  · exact Or.inr hc

theorem isPart_of_isDigit {c : Char} (h : c.isDigit = true) : isPart c = true := by
  simp [isPart, h]

theorem leaves_trimStart (s : Text) : Leaves s (Text.trimStart s) := by
  have hblank : ∀ c ∈ s.takeWhile isBlank, isPart c = true := by
    intro c hc
    have hb : isBlank c = true := List.mem_takeWhile_imp hc
    simp [isPart, hb]
  have h := leaves_append hblank (Text.trimStart s)
  rwa [Text.trimStart, List.takeWhile_append_dropWhile] at h

/-- Where such characters stand at the front, the rest is what is left without them. -/
theorem leaves_drop {u s : Text} (hu : u <+: s) (h : ∀ c ∈ u, isPart c = true) :
    Leaves s (s.drop u.length) := by
  obtain ⟨t, rfl⟩ := hu
  rw [List.drop_left]
  exact leaves_append h t

theorem leaves_mark? {d : Char} (hd : isPart d = true) {s r : Text} (h : mark? d s = some r) :
    Leaves s r := by
  cases s with
  | nil => cases h
  | cons c s =>
    rw [mark?] at h
    split at h
    · next hc =>
      cases h
      exact leaves_append (u := [c]) (by simpa [hc] using hd) r
    · cases h

theorem leaves_digits? {width n : Nat} {s r : Text} (h : digits? width s = some (n, r)) :
    Leaves s r := by
  obtain ⟨m, hm, heq⟩ := Option.map_eq_some_iff.mp h
  cases heq
  exact leaves_drop ((List.takeWhile_prefix _).trans (List.take_prefix width s))
    fun c hc => isPart_of_isDigit (Text.isDigit_of_readNat? hm hc)

theorem leaves_fixed? {width n : Nat} {s r : Text} (h : fixed? width s = some (n, r)) :
    Leaves s r := by
  unfold fixed? at h
  dsimp only at h
  split at h
  · next hlength =>
    obtain ⟨m, hm, heq⟩ := Option.map_eq_some_iff.mp h
    cases heq
    have hs := leaves_drop (List.take_prefix width s)
      fun c hc => isPart_of_isDigit (Text.isDigit_of_readNat? hm hc)
    rwa [hlength] at hs
  · cases h

theorem leaves_number? {width n : Nat} {s r : Text} (h : number? width s = some (n, r)) :
    Leaves s r :=
  (leaves_trimStart s).trans (leaves_digits? h)

theorem leaves_year? {y : Int} {s r : Text} (h : year? s = some (y, r)) : Leaves s r := by
  refine (leaves_trimStart s).trans ?_
  unfold year? at h
  split at h
  all_goals
    obtain ⟨⟨n, rest⟩, hdigits, heq⟩ := Option.map_eq_some_iff.mp h
    cases heq
  · next t htrim =>
    rw [htrim]
    exact (leaves_append (List.forall_mem_singleton.mpr (by decide)) t).trans (leaves_digits? hdigits)
  · next t htrim =>
    rw [htrim]
    exact (leaves_append (List.forall_mem_singleton.mpr (by decide)) t).trans (leaves_digits? hdigits)
  · exact leaves_digits? hdigits

theorem leaves_nanoseconds? {n : Nat} {s r : Text} (h : nanoseconds? s = some (n, r)) :
    Leaves s r := by
  unfold nanoseconds? at h
  dsimp only at h
  split at h
  · cases h
  · obtain ⟨m, -, heq⟩ := Option.map_eq_some_iff.mp h
    cases heq
    have hdigits : ∀ c ∈ s.takeWhile Char.isDigit, isPart c = true :=
      fun c hc => isPart_of_isDigit (List.mem_takeWhile_imp hc)
    have hs := leaves_append hdigits (s.dropWhile Char.isDigit)
    rwa [List.takeWhile_append_dropWhile] at hs

theorem leaves_fraction? {n : Nat} {s r : Text} (h : fraction? s = some (n, r)) :
    Leaves s r := by
  unfold fraction? at h
  split at h
  · next t => exact (leaves_append (List.forall_mem_singleton.mpr (by decide)) t).trans (leaves_nanoseconds? h)
  · cases h
    exact .refl s

theorem leaves_offset? {distance : Int} {s r : Text} (h : offset? s = some (distance, r)) :
    Leaves s r := by
  cases s with
  | nil => cases h
  | cons c s =>
    have hfirst : isPart c = true → Leaves (c :: s) s :=
      fun hc => leaves_append (u := [c]) (by simpa using hc) s
    rw [offset?] at h
    split at h
    · next hc =>
      cases h
      exact hfirst (by rcases hc with rfl | rfl <;> decide)
    split at h
    · next hc =>
      refine (hfirst (by rcases hc with rfl | rfl | rfl <;> decide)).trans ?_
      simp only [Option.bind_eq_bind, Option.bind_eq_some_iff] at h
      obtain ⟨⟨hours, s₁⟩, h₁, s₂, h₂, ⟨minutes, s₃⟩, h₃, hlast⟩ := h
      split at hlast
      · cases hlast
      · cases hlast
        exact (leaves_fixed? h₁).trans
          ((leaves_mark? (by decide) h₂).trans (leaves_fixed? h₃))
    · cases h

theorem leaves_date? {date : Date} {s r : Text} (h : date? s = some (date, r)) : Leaves s r := by
  simp only [date?, Option.bind_eq_bind, Option.bind_eq_some_iff] at h
  obtain ⟨⟨year, s₁⟩, h₁, s₂, h₂, ⟨month, s₃⟩, h₃, s₄, h₄, ⟨day, s₅⟩, h₅, d, -, hlast⟩ := h
  cases hlast
  calc Leaves s s₁ := leaves_year? h₁
    Leaves _ s₂ := leaves_mark? (by decide) h₂
    Leaves _ s₃ := leaves_number? h₃
    Leaves _ s₄ := leaves_mark? (by decide) h₄
    Leaves _ _ := leaves_number? h₅

theorem leaves_time? {withSeconds : Bool} {time : TimeOfDay} {s r : Text}
    (h : time? withSeconds s = some (time, r)) : Leaves s r := by
  simp only [time?, Option.bind_eq_bind, Option.bind_eq_some_iff] at h
  obtain ⟨⟨hour, s₁⟩, h₁, s₂, h₂, ⟨minute, s₃⟩, h₃, hrest⟩ := h
  have hfront : Leaves s s₃ := calc Leaves s s₁ := leaves_number? h₁
    Leaves _ s₂ := leaves_mark? (by decide) h₂
    Leaves _ s₃ := leaves_number? h₃
  split at hrest
  · simp only [Option.bind_eq_some_iff] at hrest
    obtain ⟨s₄, h₄, ⟨second, s₅⟩, h₅, ⟨nanosecond, s₆⟩, h₆, t, -, hlast⟩ := hrest
    cases hlast
    calc Leaves s s₃ := hfront
      Leaves _ s₄ := leaves_mark? (by decide) h₄
      Leaves _ s₅ := leaves_number? h₅
      Leaves _ _ := leaves_fraction? h₆
  · simp only [Option.bind_eq_some_iff] at hrest
    obtain ⟨t, -, hlast⟩ := hrest
    cases hlast
    exact hfront

/-- A text of which nothing is left is written with characters of timestamps. -/
theorem Leaves.isPart {s r : Text} (h : Leaves s r) (hr : r.isEmpty = true) :
    ∀ c ∈ s, isPart c = true := by
  obtain rfl := List.isEmpty_iff.mp hr
  exact fun c hc => (h c hc).resolve_right List.not_mem_nil

/-- In RFC 3339 the distance from UTC stands at the end, behind fields of digits. -/
theorem exists_offset?_of_readInternet? {s : Text} {t : Timestamp}
    (h : readInternet? s = some t) :
    ∃ u r, Leaves s u ∧ offset? u = some (t.offset, r) ∧ r.isEmpty = true := by
  obtain ⟨⟨year, s₁⟩, h₁, h⟩ := Option.bind_eq_some_iff.mp h
  obtain ⟨s₂, h₂, h⟩ := Option.bind_eq_some_iff.mp h
  obtain ⟨⟨month, s₃⟩, h₃, h⟩ := Option.bind_eq_some_iff.mp h
  obtain ⟨s₄, h₄, h⟩ := Option.bind_eq_some_iff.mp h
  obtain ⟨⟨day, s₅⟩, h₅, h⟩ := Option.bind_eq_some_iff.mp h
  obtain ⟨s₆, h₆, h⟩ := Option.bind_eq_some_iff.mp h
  obtain ⟨⟨hour, s₇⟩, h₇, h⟩ := Option.bind_eq_some_iff.mp h
  obtain ⟨s₈, h₈, h⟩ := Option.bind_eq_some_iff.mp h
  obtain ⟨⟨minute, s₉⟩, h₉, h⟩ := Option.bind_eq_some_iff.mp h
  obtain ⟨s₁₀, h₁₀, h⟩ := Option.bind_eq_some_iff.mp h
  obtain ⟨⟨second, s₁₁⟩, h₁₁, h⟩ := Option.bind_eq_some_iff.mp h
  obtain ⟨⟨nanosecond, s₁₂⟩, h₁₂, h⟩ := Option.bind_eq_some_iff.mp h
  obtain ⟨⟨distance, s₁₃⟩, h₁₃, h⟩ := Option.bind_eq_some_iff.mp h
  obtain ⟨date, -, h⟩ := Option.bind_eq_some_iff.mp h
  obtain ⟨time, -, h⟩ := Option.bind_eq_some_iff.mp h
  have hseparator : Leaves s₅ s₆ := by
    simp only [Option.orElse_eq_some] at h₆
    rcases h₆ with h₆ | ⟨-, h₆ | ⟨-, h₆⟩⟩ <;> exact leaves_mark? (by decide) h₆
  have hleaves : Leaves s s₁₂ := calc Leaves s s₁ := leaves_fixed? h₁
    Leaves _ s₂ := leaves_mark? (by decide) h₂
    Leaves _ s₃ := leaves_fixed? h₃
    Leaves _ s₄ := leaves_mark? (by decide) h₄
    Leaves _ s₅ := leaves_fixed? h₅
    Leaves _ s₆ := hseparator
    Leaves _ s₇ := leaves_fixed? h₇
    Leaves _ s₈ := leaves_mark? (by decide) h₈
    Leaves _ s₉ := leaves_fixed? h₉
    Leaves _ s₁₀ := leaves_mark? (by decide) h₁₀
    Leaves _ s₁₁ := leaves_fixed? h₁₁
    Leaves _ s₁₂ := leaves_fraction? h₁₂
  split at h
  · next hempty =>
    cases h
    exact ⟨s₁₂, s₁₃, hleaves, h₁₃, hempty⟩
  · cases h

theorem isPart_of_readInternet? {s : Text} {t : Timestamp} (h : readInternet? s = some t) :
    ∀ c ∈ s, isPart c = true := by
  obtain ⟨u, r, hleaves, hoffset, hempty⟩ := exists_offset?_of_readInternet? h
  exact (hleaves.trans (leaves_offset? hoffset)).isPart hempty

theorem isPart_of_readCivil? {separator? : Text → Option Text}
    (hseparator : ∀ {s r}, separator? s = some r → Leaves s r) {withSeconds : Bool} {s : Text}
    {t : Timestamp} (h : readCivil? separator? withSeconds s = some t) :
    ∀ c ∈ s, isPart c = true := by
  obtain ⟨⟨date, s₁⟩, h₁, h⟩ := Option.bind_eq_some_iff.mp h
  obtain ⟨s₂, h₂, h⟩ := Option.bind_eq_some_iff.mp h
  obtain ⟨⟨time, s₃⟩, h₃, h⟩ := Option.bind_eq_some_iff.mp h
  dsimp only at h
  split at h
  · next hempty =>
    exact ((leaves_date? h₁).trans ((hseparator h₂).trans (leaves_time? h₃))).isPart hempty
  · cases h

theorem isPart_of_readDate? {s : Text} {t : Timestamp} (h : readDate? s = some t) :
    ∀ c ∈ s, isPart c = true := by
  obtain ⟨⟨date, s₁⟩, h₁, h⟩ := Option.bind_eq_some_iff.mp h
  dsimp only at h
  split at h
  · next hempty => exact (leaves_date? h₁).isPart hempty
  · cases h

/-- **Every layout of a timestamp uses the same few characters.** -/
theorem isPart_of_read? {s : Text} {t : Timestamp} (h : read? s = some t) :
    ∀ c ∈ s, isPart c = true := by
  have hblanks : ∀ {s r}, blanks? s = some r → Leaves s r := by
    rintro s r ⟨⟩
    exact leaves_trimStart s
  have hmark : ∀ {s r}, mark? 'T' s = some r → Leaves s r := leaves_mark? (by decide)
  simp only [read?, Option.orElse_eq_some] at h
  rcases h with h | ⟨-, h | ⟨-, h | ⟨-, h | ⟨-, h | ⟨-, h⟩⟩⟩⟩⟩
  · exact isPart_of_readInternet? h
  · exact isPart_of_readCivil? hblanks h
  · exact isPart_of_readCivil? hmark h
  · exact isPart_of_readCivil? hblanks h
  · exact isPart_of_readCivil? hmark h
  · exact isPart_of_readDate? h

/-- One other character is enough. -/
theorem read?_eq_none {c : Char} (hc : isPart c = false) {s : Text} (hs : c ∈ s) :
    read? s = none :=
  Option.eq_none_iff_forall_ne_some.mpr fun _ h => by
    rw [isPart_of_read? h c hs] at hc
    cases hc

end Timestamp

end Sieve
