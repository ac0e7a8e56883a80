/-
# Literals as they are shown

A literal that was read from a word is shown as a word that stands for it again, however it was
spelled.  Null, truth values and integers are shown bare; neither a sign nor a digit begins one of
the three names, so an integer is not taken for a name, up to the ends of its range.  Identifiers
and timestamps are shown between quotes, each in one of the layouts it is read in.  An identifier is
tried before a timestamp, and a timestamp with microseconds is as long as an identifier of digits
alone, but there is a `T` in it.

A timestamp outside the years of four digits is shown with a sign in front of the year, which is
read in no layout with a distance from UTC; floating-point values and strings are left out too.

* `Uuid.read?_text`: the groups of an identifier are read back;
* `Timestamp.fixed?_padded`, `Timestamp.fraction?_fractionText`, `Timestamp.offset?_offsetText`: so
  is each field of a timestamp;
* `Timestamp.read?_text`, `Timestamp.natAbs_offset_lt_of_read?`: so is the whole, if its distance
  from UTC is less than a day, as it is for all that are read;
* `cast_quoted`, `cast_signedDecimal`: quoted and bare words;
* `cast_text`: a literal that was read is shown as a word that stands for it.
-/
import Sieve.Proofs.Characters
import Sieve.Proofs.Escaping

namespace Sieve

/-! ## 1. Identifiers -/

namespace Uuid

theorem map_length_groups : ∀ {sizes : List Nat} {s : Text}, sizes.sum ≤ s.length →
    (groups sizes s).map List.length = sizes
  | [], _, _ => rfl
  | n :: sizes, s, h => by
    rw [List.sum_cons] at h
    have hrest := @map_length_groups sizes (s.drop n) (by rw [List.length_drop]; omega)
    rw [groups, List.map_cons, hrest, List.length_take_of_le (by omega)]

theorem flatten_groups : ∀ (sizes : List Nat) (s : Text),
    (groups sizes s).flatten = s.take sizes.sum
  | [], _ => rfl
  | n :: sizes, s => by
    rw [groups, List.flatten_cons, flatten_groups sizes, List.sum_cons, List.take_add]

theorem ofHex?_hexDigit (u : Uuid) : ofHex? (u.digits.map hexDigit) = some u := by
  have hread : ∀ ds : List (Fin 16), (ds.map hexDigit).mapM hexValue? = some ds := by
    intro ds
    induction ds with
    | nil => rfl
    | cons d ds ih => simp [ih]
  rw [ofHex?, hread, Option.bind_some, dif_pos u.size]

/-- **An identifier is read back.**  Its digits hold no hyphen, so the text is cut into the groups
that it was made of. -/
theorem read?_text (u : Uuid) : read? u.text = some u := by
  have hlength : (u.digits.map hexDigit).length = 32 := by rw [List.length_map, u.size]
  have hhyphen : ∀ piece ∈ groups groupSizes (u.digits.map hexDigit), '-' ∉ piece := by
    have hdigit : ∀ d, hexDigit d ≠ '-' := by decide
    intro piece hpiece hmem
    obtain ⟨d, -, hd⟩ := List.mem_map.mp (subset_of_mem_groups hpiece hmem)
    exact hdigit d hd
  have hsplit : Text.split '-' u.text = groups groupSizes (u.digits.map hexDigit) :=
    Text.split_intercalate (by simp [groups, groupSizes]) hhyphen
  have hsizes : (groups groupSizes (u.digits.map hexDigit)).map List.length = groupSizes :=
    map_length_groups (by rw [hlength]; decide)
  have htext : u.text.length = 36 := by
    simp [text, groups, groupSizes, List.intercalate, hlength]
  have hgroups : ofGroups? u.text = some u := by
    have hall : groupSizes.sum = (u.digits.map hexDigit).length := hlength.symm
    rw [ofGroups?, hsplit, if_pos hsizes, flatten_groups, hall, List.take_length, ofHex?_hexDigit]
  rw [read?, if_neg (by rw [htext]; decide), if_pos htext, hgroups]

end Uuid

/-! ## 2. Fields of timestamps -/

theorem Date.ofParts?_parts (d : Date) : ofParts? d.year d.month d.day = some d :=
  dif_pos d.inCalendar

theorem TimeOfDay.ofParts?_parts (t : TimeOfDay) :
    ofParts? t.hour t.minute t.second t.nanosecond = some t :=
  dif_pos t.inDay

theorem daysInMonth_le (year : Int) (month : Nat) : daysInMonth year month ≤ 31 := by
  unfold daysInMonth
  repeat' split
  all_goals decide

/-- Two digits are enough for a month and for a day. -/
theorem Date.two_digits (d : Date) : d.month < 100 ∧ d.day < 100 := by
  have hdays := daysInMonth_le d.year d.month
  have hparts := d.inCalendar.2
  omega

theorem TimeOfDay.two_digits (t : TimeOfDay) :
    t.hour < 100 ∧ t.minute < 100 ∧ t.second < 100 := by
  have hparts := t.inDay
  omega

namespace Timestamp

theorem mark?_cons (c : Char) (r : Text) : mark? c (c :: r) = some r := by
  rw [mark?, if_pos rfl]

/-- A field of fixed width is read off the front of any text. -/
theorem fixed?_padded {width n : Nat} (hwidth : 0 < width) (h : n < 10 ^ width) (r : Text) :
    fixed? width (Text.padded width n ++ r) = some (n, r) := by
  have hlength := Text.length_padded hwidth h
  rw [fixed?, List.take_left' hlength, List.drop_left' hlength]
  simp only [hlength, Text.readNat?_padded, if_true, Option.map_some]

theorem fixed?_two {n : Nat} (h : n < 100) (r : Text) :
    fixed? 2 (Text.padded 2 n ++ r) = some (n, r) :=
  fixed?_padded (by decide) h r

/-- The digits behind the point are read as nanoseconds where no further digit follows. -/
theorem nanoseconds?_padded {width n : Nat} (hwidth : 0 < width) (hnine : width ≤ 9)
    (h : n < 10 ^ width) {r : Text} (hr : ∀ c ∈ r.head?, c.isDigit = false) :
    nanoseconds? (Text.padded width n ++ r) = some (n * 10 ^ (9 - width), r) := by
  have hlength := Text.length_padded hwidth h
  have hdigits : ∀ c ∈ Text.padded width n, c.isDigit = true :=
    fun _ hc => Text.isDigit_of_mem_padded hc
  have hrun : ((Text.padded width n ++ r).take 9).takeWhile Char.isDigit = Text.padded width n := by
    rw [List.take_append, hlength, List.take_of_length_le (by omega)]
    refine Keyword.takeWhile_run hdigits fun c hc => hr c ?_
    rw [List.head?_take] at hc
    split at hc
    · cases hc
    · exact hc
  have hrest : (Text.padded width n ++ r).dropWhile Char.isDigit = r := by
    rw [List.dropWhile_append_of_pos hdigits]
    cases r with
    | nil => rfl
    | cons c r => simp [hr c rfl]
  have hne : (Text.padded width n).isEmpty = false := by simpa using Text.padded_ne_nil width n
  rw [nanoseconds?, hrun, hrest, hlength, Text.readNat?_padded_append, hne]
  rfl

/-- A fraction is written with just as many groups of three digits as it needs. -/
theorem fraction?_fractionText {n : Nat} (h : n < 1000000000) {r : Text}
    (hr : ∀ c ∈ r.head?, c.isDigit = false ∧ c ≠ '.') :
    fraction? (fractionText n ++ r) = some (n, r) := by
  have hdigit : ∀ c ∈ r.head?, c.isDigit = false := fun c hc => (hr c hc).1
  unfold fractionText
  split
  · next hzero =>
    subst hzero
    cases r with
    | nil => rfl
    | cons c r => simp [fraction?, (hr c rfl).2]
  split
  · next hmilli =>
    rw [List.cons_append, fraction?, nanoseconds?_padded (by decide) (by decide) (by omega) hdigit]
    simp only [Option.some.injEq, Prod.mk.injEq, and_true]
    omega
  split
  · next hmicro =>
    rw [List.cons_append, fraction?, nanoseconds?_padded (by decide) (by decide) (by omega) hdigit]
    simp only [Option.some.injEq, Prod.mk.injEq, and_true]
    omega
  · rw [List.cons_append, fraction?, nanoseconds?_padded (by decide) (by decide) h hdigit]
    simp

theorem offset?_sign {c : Char} (hc : c = '+' ∨ c = '-') {hours minutes : Nat} (hh : hours ≤ 23)
    (hm : minutes ≤ 59) (r : Text) :
    offset? (c :: (Text.padded 2 hours ++ ':' :: (Text.padded 2 minutes ++ r))) =
      some (if c = '+' then (hours * 60 + minutes : Int) else -(hours * 60 + minutes), r) := by
  have hutc : ¬ (c = 'Z' ∨ c = 'z') := by rcases hc with rfl | rfl <;> decide
  have hsign : c = '+' ∨ c = '-' ∨ c = '\u2212' := hc.imp_right Or.inl
  have hrange : ¬ (23 < hours ∨ 59 < minutes) := by omega
  have hhours : hours < 100 := by omega
  have hminutes : minutes < 100 := by omega
  simp only [offset?, hutc, if_false, hsign, if_true, fixed?_two hhours, mark?_cons,
    fixed?_two hminutes, hrange, Option.bind_eq_bind, Option.bind_some]

/-- A distance from UTC of less than a day is read back. -/
theorem offset?_offsetText {offset : Int} (h : offset.natAbs < 24 * 60) (r : Text) :
    offset? (offsetText offset ++ r) = some (offset, r) := by
  have htext : offsetText offset ++ r = (if offset < 0 then '-' else '+') ::
      (Text.padded 2 (offset.natAbs / 60) ++ ':' :: (Text.padded 2 (offset.natAbs % 60) ++ r)) := by
    simp [offsetText]
  have hhours : offset.natAbs / 60 ≤ 23 := by omega
  have hminutes : offset.natAbs % 60 ≤ 59 := by omega
  rw [htext, offset?_sign (by split <;> simp) hhours hminutes]
  split
  · next hneg =>
    rw [if_neg (by decide), Option.some.injEq, Prod.mk.injEq, eq_self, and_true]
    omega
  · next hneg =>
    rw [if_pos rfl, Option.some.injEq, Prod.mk.injEq, eq_self, and_true]
    omega

/-! ## 3. Timestamps -/

/-- The sign in front of a distance from UTC ends the fraction of a second. -/
theorem head?_offsetText {offset : Int} {c : Char} (hc : c ∈ (offsetText offset).head?) :
    c.isDigit = false ∧ c ≠ '.' := by
  have hsign : c = if offset < 0 then '-' else '+' := (Option.some.inj hc).symm
  rw [hsign]
  split <;> decide

/-- The fields of a timestamp, each in front of the others. -/
theorem text_eq_fields {t : Timestamp} (hyear : 0 ≤ t.date.year ∧ t.date.year ≤ 9999) :
    t.text = Text.padded 4 t.date.year.natAbs ++ ('-' :: (Text.padded 2 t.date.month ++
      ('-' :: (Text.padded 2 t.date.day ++ ('T' :: (Text.padded 2 t.time.hour ++
        (':' :: (Text.padded 2 t.time.minute ++ (':' :: (Text.padded 2 t.time.second ++
          (fractionText t.time.nanosecond ++ offsetText t.offset))))))))))) := by
  simp [text, localText, yearText, hyear]

/-- **RFC 3339 is read back** in the years that have four digits. -/
theorem readInternet?_text {t : Timestamp} (hyear : 0 ≤ t.date.year ∧ t.date.year ≤ 9999)
    (hoffset : t.offset.natAbs < 24 * 60) : readInternet? t.text = some t := by
  have hfour : t.date.year.natAbs < 10 ^ 4 := by omega
  have hcast : (t.date.year.natAbs : Int) = t.date.year := Int.natAbs_of_nonneg hyear.1
  obtain ⟨hmonth, hday⟩ := t.date.two_digits
  obtain ⟨hhour, hminute, hsecond⟩ := t.time.two_digits
  have hfraction : fraction? (fractionText t.time.nanosecond ++ offsetText t.offset) = _ :=
    fraction?_fractionText t.time.inDay.2.2.2 fun c hc => head?_offsetText hc
  have hdistance := offset?_offsetText hoffset []
  rw [List.append_nil] at hdistance
  -- the fields come off the front of the text one after the other
  rw [readInternet?, text_eq_fields hyear]
  refine Option.bind_eq_some_iff.mpr ⟨_, fixed?_padded (by decide) hfour _, ?_⟩
  refine Option.bind_eq_some_iff.mpr ⟨_, mark?_cons '-' _, ?_⟩
  refine Option.bind_eq_some_iff.mpr ⟨_, fixed?_two hmonth _, ?_⟩
  refine Option.bind_eq_some_iff.mpr ⟨_, mark?_cons '-' _, ?_⟩
  refine Option.bind_eq_some_iff.mpr ⟨_, fixed?_two hday _, ?_⟩
  refine Option.bind_eq_some_iff.mpr ⟨_, by rw [mark?_cons]; rfl, ?_⟩
  refine Option.bind_eq_some_iff.mpr ⟨_, fixed?_two hhour _, ?_⟩
  refine Option.bind_eq_some_iff.mpr ⟨_, mark?_cons ':' _, ?_⟩
  refine Option.bind_eq_some_iff.mpr ⟨_, fixed?_two hminute _, ?_⟩
  refine Option.bind_eq_some_iff.mpr ⟨_, mark?_cons ':' _, ?_⟩
  refine Option.bind_eq_some_iff.mpr ⟨_, fixed?_two hsecond _, ?_⟩
  refine Option.bind_eq_some_iff.mpr ⟨_, hfraction, ?_⟩
  refine Option.bind_eq_some_iff.mpr ⟨_, hdistance, ?_⟩
  rw [hcast]
  refine Option.bind_eq_some_iff.mpr ⟨_, t.date.ofParts?_parts, ?_⟩
  refine Option.bind_eq_some_iff.mpr ⟨_, t.time.ofParts?_parts, ?_⟩
  rfl

theorem read?_text {t : Timestamp} (hyear : 0 ≤ t.date.year ∧ t.date.year ≤ 9999)
    (hoffset : t.offset.natAbs < 24 * 60) : read? t.text = some t := by
  rw [read?, readInternet?_text hyear hoffset]
  rfl

theorem natAbs_lt_of_offset? {s r : Text} {distance : Int}
    (h : offset? s = some (distance, r)) : distance.natAbs < 24 * 60 := by
  cases s with
  | nil => cases h
  | cons c s =>
    rw [offset?] at h
    split at h
    · cases h
      decide
    split at h
    · simp only [Option.bind_eq_bind, Option.bind_eq_some_iff] at h
      obtain ⟨⟨hours, _⟩, -, _, -, ⟨minutes, _⟩, -, h⟩ := h
      split at h
      · cases h
      · next hrange =>
        cases h
        split <;> omega
    · cases h

/-- **Every distance from UTC that is read is less than a day.** -/
theorem natAbs_offset_lt_of_read? {s : Text} {t : Timestamp} (h : read? s = some t) :
    t.offset.natAbs < 24 * 60 := by
  have hinternet : ∀ {t}, readInternet? s = some t → t.offset.natAbs < 24 * 60 := by
    intro t h
    obtain ⟨_, _, -, hoffset, -⟩ := exists_offset?_of_readInternet? h
    exact natAbs_lt_of_offset? hoffset
  have hcivil : ∀ {separator? withSeconds t}, readCivil? separator? withSeconds s = some t →
      t.offset.natAbs < 24 * 60 := by
    intro separator? withSeconds t h
    simp only [readCivil?, Option.bind_eq_bind, Option.bind_eq_some_iff] at h
    obtain ⟨_, -, _, -, _, -, h⟩ := h
    split at h
    · cases h
      exact Nat.succ_pos _
    · cases h
  have hdate : ∀ {t}, readDate? s = some t → t.offset.natAbs < 24 * 60 := by
    intro t h
    simp only [readDate?, Option.bind_eq_bind, Option.bind_eq_some_iff] at h
    obtain ⟨_, -, h⟩ := h
    split at h
    · cases h
      exact Nat.succ_pos _
    · cases h
  simp only [read?, Option.orElse_eq_some] at h
  rcases h with h | ⟨-, h | ⟨-, h | ⟨-, h | ⟨-, h | ⟨-, h⟩⟩⟩⟩⟩
  exacts [hinternet h, hcivil h, hcivil h, hcivil h, hcivil h, hdate h]

end Timestamp

/-! ## 4. Words -/

open Text

/-- Between quotes that do not occur in it, a text is an identifier, a timestamp or a string. -/
theorem cast_quoted {s : Text} (h : '\'' ∉ s) : cast (Scalar.quoted s) = castQuoted '\'' s := by
  have hquote := cast_quote (q := '\'') (by decide) s
  rwa [quote, escape_eq_self h] at hquote

theorem cast_quoted_uuid (u : Uuid) : cast (Scalar.quoted u.text) = .uuid u := by
  have hread := u.read?_text
  have hquote : '\'' ∉ u.text := fun hmem =>
    absurd (Uuid.isPart_of_read? hread _ hmem) (by decide)
  rw [cast_quoted hquote, castQuoted, hread]

/-- There is a `T` in the text of a timestamp, which stands in no identifier. -/
theorem cast_quoted_timestamp {t : Timestamp} (hyear : 0 ≤ t.date.year ∧ t.date.year ≤ 9999)
    (hoffset : t.offset.natAbs < 24 * 60) : cast (Scalar.quoted t.text) = .timestamp t := by
  have hread := Timestamp.read?_text hyear hoffset
  have hquote : '\'' ∉ t.text := fun hmem =>
    absurd (Timestamp.isPart_of_read? hread _ hmem) (by decide)
  have hnot : Uuid.read? t.text = none := by
    refine Uuid.read?_eq_none (c := 'T') (by decide) ?_
    simp [Timestamp.text, Timestamp.localText]
  rw [cast_quoted hquote, castQuoted, hnot, hread]

/-- A sign or a digit is part of a bare word. -/
theorem not_isBlank_of_mem_signedDecimal {n : Int} {c : Char} (h : c ∈ signedDecimal n) :
    isBlank c = false ∧ isQuote c = false := by
  rcases eq_minus_or_isDigit h with rfl | hdigit
  · decide
  · have hrange := toNat_of_isDigit hdigit
    refine ⟨?_, ?_⟩
    · grind [isBlank]
    · simp [isQuote, ne_of_isDigit hdigit]

/-- An integer of 64 bits is taken for no name, since no name has only signs and digits. -/
theorem castBare_signedDecimal {n : Int} (h : fitsInt64 n = true) :
    castBare (signedDecimal n) = .int n := by
  have hname : ∀ {name : Text} (c : Char), c ∈ name → c ≠ '-' → c.isDigit = false →
      signedDecimal n ≠ name := by
    rintro name c hc hminus hdigit rfl
    rcases eq_minus_or_isDigit hc with hc | hc
    · exact hminus hc
    · exact absurd hc (by simp [hdigit])
  have htrue := @hname "true".toList 't' (by decide) (by decide) rfl
  have hfalse := @hname "false".toList 'f' (by decide) (by decide) rfl
  have hnull := @hname "null".toList 'n' (by decide) (by decide) rfl
  simp only [castBare, asciiLower_signedDecimal, htrue, hfalse, hnull, if_false,
    readInt64?_signedDecimal h]

theorem cast_signedDecimal {n : Int} (h : fitsInt64 n = true) :
    cast (signedDecimal n) = .int n := by
  have htrim : trim (signedDecimal n) = signedDecimal n := by
    refine trim_eq_self (fun c hc => ?_) fun c hc => ?_
    · exact (not_isBlank_of_mem_signedDecimal (List.mem_of_mem_head? hc)).1
    · exact (not_isBlank_of_mem_signedDecimal (List.mem_of_mem_getLast? hc)).1
  obtain ⟨c, r, hcons⟩ := List.exists_cons_of_ne_nil (signedDecimal_ne_nil n)
  have hquote : isQuote c = false :=
    (not_isBlank_of_mem_signedDecimal (n := n) (hcons ▸ List.mem_cons_self)).2
  have hunquote : unquote? (signedDecimal n) = none := by
    simp [hcons, unquote?, hquote]
  unfold cast
  simp only [htrim, hunquote, castBare_signedDecimal h]
  simp [hcons]

/-! ## 5. What is read -/

/-- The range of the literals that are read: integers of 64 bits, and distances from UTC of less
than a day. -/
def Scalar.InRange : Scalar → Prop
  | .int n => fitsInt64 n = true
  | .timestamp t => t.offset.natAbs < 24 * 60
  | .null | .bool _ | .float _ | .uuid _ | .string _ => True

theorem inRange_castQuoted (q : Char) (s : Text) : (castQuoted q s).InRange := by
  unfold castQuoted
  split
  · trivial
  split
  · next htimestamp => exact Timestamp.natAbs_offset_lt_of_read? htimestamp
  · trivial

theorem inRange_castBare (s : Text) : (castBare s).InRange := by
  unfold castBare
  dsimp only
  split
  · trivial
  split
  · trivial
  split
  · trivial
  split
  · next hread => exact (Option.filter_eq_some_iff.mp hread).2
  · split <;> trivial

/-- **Whatever is read is in range.** -/
theorem inRange_cast (s : Text) : (cast s).InRange := by
  unfold cast
  dsimp only
  split
  · trivial
  split
  · exact inRange_castQuoted _ _
  · exact inRange_castBare _

/-- The literals that their text is enough for: all but floating-point values, strings, and
timestamps outside the years of four digits. -/
def Scalar.Restorable : Scalar → Prop
  | .null | .bool _ | .int _ | .uuid _ => True
  | .timestamp t => 0 ≤ t.date.year ∧ t.date.year ≤ 9999
  | .float _ | .string _ => False

instance : DecidablePred Scalar.Restorable
  | .null | .bool _ | .int _ | .uuid _ => isTrue trivial
  | .timestamp t => inferInstanceAs (Decidable (0 ≤ t.date.year ∧ t.date.year ≤ 9999))
  | .float _ | .string _ => isFalse id

/-- **The text of a literal** in range stands for the literal. -/
theorem cast_text : ∀ {v : Scalar}, v.InRange → v.Restorable → cast v.text = v
  | .null, _, _ => by decide
  | .bool true, _, _ => by decide
  | .bool false, _, _ => by decide
  | .int _, hrange, _ => cast_signedDecimal hrange
  | .timestamp _, hrange, hyear => cast_quoted_timestamp hyear hrange
  | .uuid u, _, _ => cast_quoted_uuid u

/-- **A literal that was read is shown as a word that stands for it again**, if it is null, a truth
value, an integer, an identifier, or a timestamp with a year of four digits; and the decimal text
of every integer of 64 bits stands for that integer. -/
theorem cast_text_cast :
    (∀ s, (cast s).Restorable → cast (cast s).text = cast s) ∧
      ∀ n : Int, -2 ^ 63 ≤ n → n ≤ 2 ^ 63 - 1 → cast (signedDecimal n) = .int n := by
  refine ⟨fun s hv => cast_text (inRange_cast s) hv, fun n hleast hgreatest => ?_⟩
  refine cast_signedDecimal ?_
  rw [fitsInt64, Bool.and_eq_true, decide_eq_true_eq, decide_eq_true_eq]
  omega

/-- The text of a timestamp with microseconds has as many characters as an identifier of digits
alone has.  The second is a leap second of the leap year 0. -/
theorem cast_text_cast_microseconds :
    let s := "\"0000-02-29 07:05:60.00025\"".toList
    (cast s).Restorable ∧ (cast s).text = "'0000-02-29T07:05:60.000250+00:00'".toList ∧
      cast (cast s).text = cast s ∧
      cast "-9223372036854775808".toList = .int (-9223372036854775808) := by
  intro s
  obtain ⟨hshown, hdecimal⟩ := cast_text_cast
  have hv : (cast s).Restorable := by decide +kernel
  have hleast : signedDecimal (-9223372036854775808) = "-9223372036854775808".toList := by
    decide +kernel
  exact ⟨hv, by decide +kernel, hshown s hv, hleast ▸ hdecimal _ (by decide) (by decide)⟩

end Sieve
