/-
# Preparing a text twice

A text that has been prepared is prepared.  No letter is a blank, so the text is trimmed once and
for all.  Putting keywords in capitals a second time finds the same spans to copy, since quotes,
backslashes and what opens a span are no letters, and no phrase that did not stand there before.
What it does find is in capitals already.

* `copied_recased`, `PhraseAt.of_recased`: the same spans and no other phrases;
* `capitalize_capitalize`: keywords are put in capitals once;
* `Filter.prepare_ends`: a prepared text has no blanks around it;
* `Filter.prepare_prepare`: a text is prepared once, and what is shown of it is read as it was.
-/
import Sieve.Proofs.Coverage
import Sieve.Proofs.FilterCommands

namespace Sieve

namespace Keyword

/-! ## 1. The same spans, and no other phrases -/

/-- A capital letter is its own capital. -/
theorem capital_capital (c : Char) : capital (capital c) = capital c := by
  have hs : capital 'S' = 'S' := by decide
  by_cases hc : c = 'ſ'
  · rw [hc]
    exact hs
  · have hupper : c.toUpper ≠ 'ſ' := fun h => hc (eq_of_toUpper_not_isCapital h (by decide))
    have hcapital : capital c = c.toUpper := if_neg (by simpa using hc)
    rw [hcapital, capital, if_neg (by simpa using hupper), toUpper_toUpper]

variable {s t : Text}

/-- What a character of the rewritten text was. -/
theorem getElem?_recased (hs : List.Forall₂ Recased s t) {p : Nat} {d : Char}
    (hd : t[p]? = some d) : ∃ c, s[p]? = some c ∧ Recased c d := by
  obtain ⟨hp, rfl⟩ := List.getElem?_eq_some_iff.mp hd
  have hp' : p < s.length := hs.length_eq ▸ hp
  exact ⟨s[p], List.getElem?_eq_getElem hp', hs.get hp' hp⟩

theorem stillCopied_recased (k : Nat) {c d : Char} (h : Recased c d)
    (hs : List.Forall₂ Recased s t) : stillCopied k d t = stillCopied k c s := by
  unfold stillCopied
  rw [h.test_eq fun _ he => he.not_opensSpan, spanLength?_recased hs]

theorem copiedFrom_recased (hs : List.Forall₂ Recased s t) :
    ∀ k p, copiedFrom k t p = copiedFrom k s p := by
  induction hs with
  | nil => exact fun _ _ => rfl
  | cons h hs ih =>
    intro k p
    cases p with
    | zero => rfl
    | succ p => rw [copiedFrom, copiedFrom, stillCopied_recased k h hs, ih]

/-- The same characters are copied. -/
theorem copied_recased (hs : List.Forall₂ Recased s t) (p : Nat) : copied t p = copied s p := by
  rw [copied, copied, spanLength?_recased hs, copiedFrom_recased hs]

/-- A phrase behind a blank of the rewritten text stood there before. -/
theorem PhraseAt.of_recased {a m : Nat} (h : PhraseAt t a m) (hs : List.Forall₂ Recased s t) :
    PhraseAt s a m := by
  obtain ⟨d, hd, hblank⟩ := h.behind
  obtain ⟨c, hc, hrec⟩ := getElem?_recased hs hd
  obtain ⟨ws, hws, hstands⟩ := h.stands
  exact ⟨h.pos, ⟨c, hc, hrec.isBlank_eq ▸ hblank⟩,
    foldedLength?_of_stands hws (hstands.of_recased hs)⟩

/-- What is put in capitals the second time was put in capitals the first time. -/
theorem Raised.of_recased {p : Nat} (h : Raised t p) (hs : List.Forall₂ Recased s t) :
    Raised s p := by
  obtain ⟨a, m, hphrase, hfree, hap, hpm⟩ := h
  refine ⟨a, m, hphrase.of_recased hs, ?_, hap, hpm⟩
  have hcopied := copied_recased hs a
  unfold copied at hcopied
  rw [← hcopied, hfree]

/-- **Keywords are put in capitals once.** -/
theorem capitalize_capitalize (s : Text) : capitalize (capitalize s) = capitalize s := by
  refine List.ext_getElem? fun p => ?_
  by_cases hp : Raised (capitalize s) p
  · rw [capitalize_getElem?_of_raised hp,
      capitalize_getElem?_of_raised (hp.of_recased (capitalize_recased s)), Option.map_map]
    exact congrArg (Option.map · s[p]?) (funext capital_capital)
  · exact capitalize_getElem?_of_not_raised hp

end Keyword

/-! ## 2. Blanks around a text -/

/-- What is cut off the end leaves the front as it was. -/
theorem Text.trim_prefix_trimStart (s : Text) : trim s <+: trimStart s := by
  refine List.reverse_suffix.mp ?_
  rw [trim, List.reverse_reverse]
  exact List.dropWhile_suffix isBlank

/-- A trimmed text neither starts nor ends with a blank. -/
theorem Text.trim_ends (s : Text) : (∀ c ∈ (trim s).head?, isBlank c = false) ∧
    ∀ c ∈ (trim s).getLast?, isBlank c = false := by
  constructor
  · intro c hc
    obtain ⟨r, hr⟩ := List.head?_eq_some_iff.mp hc
    obtain ⟨more, hmore⟩ := trim_prefix_trimStart s
    exact not_isBlank_head?_trimStart s c (by rw [← hmore, hr]; rfl)
  · rw [trim, List.getLast?_reverse]
    exact not_isBlank_head?_trimStart _

theorem Keyword.map_isBlank_capitalize (s : Text) :
    (capitalize s).map isBlank = s.map isBlank := by
  have hsame : ∀ {s t : Text}, List.Forall₂ Recased s t → t.map isBlank = s.map isBlank := by
    intro s t hs
    induction hs with
    | nil => rfl
    | cons h _ ih => rw [List.map_cons, List.map_cons, h.isBlank_eq, ih]
  exact hsame (capitalize_recased s)

namespace Filter

variable (options : ReadOptions) (s : Text)

/-- A prepared text neither starts nor ends with a blank. -/
theorem prepare_ends : (∀ c ∈ (prepare options s).head?, isBlank c = false) ∧
    ∀ c ∈ (prepare options s).getLast?, isBlank c = false := by
  obtain ⟨hstart, hend⟩ := Text.trim_ends s
  unfold prepare
  split
  · have hmap := Keyword.map_isBlank_capitalize (Text.trim s)
    have hhead := congrArg List.head? hmap
    have hlast := congrArg List.getLast? hmap
    rw [List.head?_map, List.head?_map] at hhead
    rw [List.getLast?_map, List.getLast?_map] at hlast
    constructor
    · intro c hc
      rw [Option.mem_def.mp hc] at hhead
      obtain ⟨d, hd, hdc⟩ := Option.map_eq_some_iff.mp hhead.symm
      rw [← hdc, hstart d hd]
    · intro c hc
      rw [Option.mem_def.mp hc] at hlast
      obtain ⟨d, hd, hdc⟩ := Option.map_eq_some_iff.mp hlast.symm
      rw [← hdc, hend d hd]
  · exact ⟨hstart, hend⟩

/-- A prepared text is not changed again. -/
theorem prepare_idem : prepare options (prepare options s) = prepare options s := by
  obtain ⟨hstart, hend⟩ := prepare_ends options s
  have htrim := Text.trim_eq_self hstart hend
  conv_lhs => rw [prepare, htrim]
  split
  · rename_i hnormalize
    rw [prepare, if_pos hnormalize, Keyword.capitalize_capitalize]
  · rfl

/-- A prepared text stands for what the text stood for. -/
theorem read_prepare : read options (prepare options s) = read options s := by
  unfold read
  rw [prepare_idem]

end Filter

/-! ## 3. What is shown of a text -/

/-- What is printed of a prepared text: the text and the stages of its reading. -/
def Context.stages (ctx : Context) (prepared : Text) : Text :=
  let tokens := tokenize prepared
  ctx.render (Report.tokenJson prepared tokens (reorder tokens))
    (Report.tokenTable ctx.colours prepared tokens (reorder tokens))

/-- **A text is prepared once**, with keywords in any case or not, and read alike before and after.
So the text that is shown with its tokens may be put in place of the text that was given: every
command about a filter does the same with it. -/
theorem Filter.prepare_prepare (options : ReadOptions) (s : Text) :
    prepare options (prepare options s) = prepare options s ∧
      read options (prepare options s) = read options s ∧
      ∀ ctx : Context,
        (∀ w, ((Command.tokens s).action ctx).perform w =
          (.ok (), { w with output := w.output ++ ctx.stages (prepare ctx.options s) })) ∧
        ∀ c : FilterCommand, (c.on (prepare ctx.options s)).action ctx = (c.on s).action ctx := by
  refine ⟨prepare_idem options s, read_prepare options s, fun ctx => ⟨fun _ => rfl, fun c => ?_⟩⟩
  rw [FilterCommand.action_on, FilterCommand.action_on, Context.readFilter, Context.readFilter,
    read_prepare]

/-- The keyword inside a word that goes on is not put in capitals, not the second time either. -/
example : Filter.prepare ⟨true⟩ "  a iſ not null-x or b in'x and y' ".toList =
    "a iſ not null-x OR b IN'x AND y'".toList := by decide +kernel

end Sieve
