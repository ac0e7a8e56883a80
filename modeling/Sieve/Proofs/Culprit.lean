/-
# What a reason is about

The reason for which an expression is refused names a place, and at that place of the prepared
text stands what is to blame: a parenthesis for an unbalanced parenthesis, and for an operand that
is missing or unexpected an operator with the text that is named.  A place is read with its token,
travels with it through the reordering, and is reported by the step that fails at this token.

Only two reasons name no place.  The operands that do not come together are never one.  And a
lone word is what was written: with an operator in the input, what is left alone on the stack has
an operator too.

* `FilterError.Blames`: the reason is about this token;
* `Filter.blames_of_step`, `Filter.exists_blames_of_foldlM`: a step that fails, and a run;
* `Filter.build_eq_loneOperand_iff`: when one word is left;
* `Filter.read_culprit`: every reason, and what stands at its place.
-/
import Sieve.Proofs.Partners
import Sieve.Proofs.Provenance
import Sieve.Proofs.QuotedWord

namespace Sieve

/-! ## 1. Tokens to blame -/

/-- The operator that an operator token carries. -/
def Token.operator? : Token → Option Operator
  | and => some .and
  | or => some .or
  | compare op | membership op | nullTest op => some op
  | openParen | closeParen | word _ => none

/-- The reason is about this token: it names its place and, if it names an operator, the one that
the token carries. -/
def FilterError.Blames (t : Placed) : FilterError → Prop
  | unbalancedParenthesis p => t.token.isParen = true ∧ p = t.position
  | missingOperand op p | unexpectedOperand op p => t.token.operator? = some op ∧ p = t.position
  | incompleteExpression _ | loneOperand _ => False

/-- A complaint of the reordering is about a parenthesis of its input. -/
theorem exists_blames_of_complaint {ts : List Placed} {e : FilterError}
    (h : e ∈ (reorder ts).errors) : ∃ t ∈ ts, e.Blames t := by
  rw [reorder_errors, List.mem_map] at h
  obtain ⟨t, ht, rfl⟩ := h
  rcases List.mem_append.mp ht with ht | ht
  · obtain ⟨i, hi, hstray⟩ := mem_pick.mp ht
    have hclose : t.token = .closeParen := by simpa [hi] using hstray.1
    exact ⟨t, List.mem_of_getElem? hi, by rw [hclose]; rfl, rfl⟩
  · obtain ⟨i, hi, hunclosed⟩ := mem_pick.mp (List.mem_reverse.mp ht)
    have hopen : t.token = .openParen := by simpa [hi] using hunclosed.1
    exact ⟨t, List.mem_of_getElem? hi, by rw [hopen]; rfl, rfl⟩

/-! ## 2. A step that fails -/

/-- A computation that fails does so in its first part or in what follows. -/
theorem bind_eq_error_iff {ε α β : Type} {first : Except ε α} {next : α → Except ε β} {e : ε} :
    first >>= next = .error e ↔ first = .error e ∨ ∃ a, first = .ok a ∧ next a = .error e := by
  cases first with
  | error e => simp [bind, Except.bind]
  | ok a => simp [bind, Except.bind]

namespace Filter

variable {t : Placed} {op : Operator} {e : FilterError}

theorem blames_of_popWord {stack : List Node} (ht : t.token.operator? = some op)
    (h : popWord op t.position stack = .error e) : e.Blames t := by
  unfold popWord at h
  split at h
  · cases h
  · cases h
    exact ⟨ht, rfl⟩
  · cases h
    exact ⟨ht, rfl⟩

theorem blames_of_reduceGroup {stack : List Node} (ht : t.token.operator? = some op)
    (h : reduceGroup op t.position stack = .error e) : e.Blames t := by
  unfold reduceGroup at h
  split at h
  · cases h
  · cases h
    exact ⟨ht, rfl⟩

/-- **A step that fails** gives a reason that is about its token. -/
theorem blames_of_step {stack : List Node} (h : step stack t = .error e) : e.Blames t := by
  unfold step at h
  split at h
  case h_1 ht => exact blames_of_reduceGroup (by rw [ht]; rfl) h
  case h_2 ht => exact blames_of_reduceGroup (by rw [ht]; rfl) h
  case h_3 op ht =>
    have hop : t.token.operator? = some op := by rw [ht]; rfl
    rcases bind_eq_error_iff.mp h with h | ⟨⟨literal, stack₁⟩, -, h⟩
    · exact blames_of_popWord hop h
    rcases bind_eq_error_iff.mp h with h | ⟨⟨column, stack₂⟩, -, h⟩
    · exact blames_of_popWord hop h
    · cases h
  case h_4 op ht =>
    split at h
    · cases h
    · cases h
      exact ⟨by rw [ht]; rfl, rfl⟩
  case h_5 op ht =>
    rcases bind_eq_error_iff.mp h with h | ⟨⟨column, stack₁⟩, -, h⟩
    · exact blames_of_popWord (by rw [ht]; rfl) h
    · cases h
  case h_6 => cases h
  case h_7 ht =>
    cases h
    exact ⟨by rw [ht]; rfl, rfl⟩
  case h_8 ht =>
    cases h
    exact ⟨by rw [ht]; rfl, rfl⟩

/-- **A run that fails** gives a reason that is about one of its tokens. -/
theorem exists_blames_of_foldlM {ts : List Placed} : ∀ {stack : List Node},
    ts.foldlM step stack = .error e → ∃ t ∈ ts, e.Blames t := by
  induction ts with
  | nil =>
    intro stack h
    cases h
  | cons t ts ih =>
    intro stack h
    rw [List.foldlM_cons] at h
    rcases bind_eq_error_iff.mp h with h | ⟨stack', -, h⟩
    · exact ⟨t, List.mem_cons_self, blames_of_step h⟩
    · obtain ⟨u, hu, hblames⟩ := ih h
      exact ⟨u, List.mem_cons_of_mem t hu, hblames⟩

/-! ## 3. What is left on the stack -/

/-- At the end one word is left, or entries that are not one. -/
theorem finish_eq_error_iff {stack : List Node} : finish stack = .error e ↔
    (∃ w, stack = [.raw w] ∧ e = .loneOperand w) ∨
      (stack.length ≠ 1 ∧ e = .incompleteExpression stack.length) := by
  match stack with
  | [] => simp [finish, eq_comm]
  | [.raw w] => simp [finish, eq_comm]
  | [.condition c] => simp [finish]
  | [.group op entries] => simp [finish]
  | _ :: _ :: _ => simp [finish, eq_comm]

theorem build_eq_error_iff {ts : List Placed} : build ts = .error e ↔
    ts.foldlM step [] = .error e ∨ ∃ stack, ts.foldlM step [] = .ok stack ∧
      finish stack = .error e :=
  bind_eq_error_iff

/-- Where all tokens are words, only their texts count. -/
theorem map_token_of_words {ts : List Placed} (h : ∀ t ∈ ts, ∃ w, t.token = .word w) :
    ts.map Placed.token = (ts.filterMap fun t => t.token.word?).map Token.word := by
  induction ts with
  | nil => rfl
  | cons t ts ih =>
    obtain ⟨⟨w, hw⟩, hts⟩ := List.forall_mem_cons.mp h
    simp [hw, Token.word?, ih hts]

/-- **One word is left** exactly where it was the only one and no operator was there to take it. -/
theorem build_eq_loneOperand_iff {ts : List Placed} (hparen : ∀ t ∈ ts, t.token.isParen = false)
    {w : Text} : build ts = .error (.loneOperand w) ↔
      (∀ t ∈ ts, t.token.isOperator = false) ∧ ts.filterMap (fun t => t.token.word?) = [w] := by
  constructor
  · intro h
    rcases build_eq_error_iff.mp h with h | ⟨stack, hrun, hfinish⟩
    · obtain ⟨t, -, hblames⟩ := exists_blames_of_foldlM h
      exact hblames.elim
    rcases finish_eq_error_iff.mp hfinish with ⟨w', rfl, hw'⟩ | ⟨-, hn⟩
    · obtain rfl : w = w' := FilterError.loneOperand.inj hw'
      have hstart : Accounts [] [] [] [] := ⟨rfl, rfl, List.Perm.nil⟩
      obtain ⟨es, hnodes, hwords, hops⟩ := hstart.run hrun
      obtain ⟨e, rfl, hraw⟩ := List.map_eq_singleton_iff.mp hnodes
      obtain rfl := Expr.node_eq_raw hraw
      -- the one expression is a plain word, so there was no operator to account for
      have hnone : (ts.map Placed.token).filter Token.isOperator = [] :=
        List.nil_perm.mp (by simpa [Expr.operators, Leaf.operator?] using hops)
      refine ⟨fun t ht => ?_, by simpa [Expr.words, Expr.leaves, Leaf.words] using hwords.symm⟩
      simpa using List.filter_eq_nil_iff.mp hnone t.token (List.mem_map_of_mem ht)
    · cases hn
  · rintro ⟨hplain, hwords⟩
    have hall : ∀ t ∈ ts, ∃ w, t.token = .word w := by
      intro t ht
      have hp := hparen t ht
      have ho := hplain t ht
      cases htoken : t.token with
      | word w => exact ⟨w, rfl⟩
      | openParen | closeParen => simp [htoken, Token.isParen] at hp
      | _ => simp [htoken, Token.isOperator, Token.precedence] at ho
    have hrun := foldlM_step_words [w] [] (by rw [map_token_of_words hall, hwords])
    exact build_eq_error_iff.mpr (Or.inr ⟨_, hrun, rfl⟩)

/-! ## 4. From the text to the reason -/

theorem ofTokens_eq_error_iff {ts : List Placed} : ofTokens ts = .error e ↔
    (reorder ts).errors.head? = some e ∨
      (reorder ts).errors = [] ∧ build (reorder ts).tokens = .error e := by
  unfold ofTokens
  cases h : (reorder ts).errors with
  | nil => simp [h]
  | cons e' more => simp [h]

theorem read_eq_error_iff {options : ReadOptions} {s : Text} : read options s = .error e ↔
    prepare options s ≠ [] ∧ ofTokens (tokenize (prepare options s)) = .error e := by
  rw [read]
  cases h : prepare options s with
  | nil => simp
  | cons c r => simp

/-- Reordering only leaves parentheses out. -/
theorem mem_reorder_iff {ts : List Placed} :
    t ∈ (reorder ts).tokens ↔ t ∈ ts ∧ t.token.isParen = false := by
  rw [(reorder_perm ts).mem_iff, List.mem_filter]
  simp

/-- A reason is about a token of the input, or about all that is left on the stack. -/
theorem blames_of_ofTokens {ts : List Placed} (h : ofTokens ts = .error e) :
    (∃ t ∈ ts, e.Blames t) ∨ (∃ n, n ≠ 1 ∧ e = .incompleteExpression n) ∨
      ∃ w, e = .loneOperand w := by
  rcases ofTokens_eq_error_iff.mp h with h | ⟨-, h⟩
  · exact Or.inl (exists_blames_of_complaint (List.mem_of_mem_head? h))
  rcases build_eq_error_iff.mp h with h | ⟨stack, -, h⟩
  · obtain ⟨t, ht, hblames⟩ := exists_blames_of_foldlM h
    exact Or.inl ⟨t, (mem_reorder_iff.mp ht).1, hblames⟩
  rcases finish_eq_error_iff.mp h with ⟨w, -, rfl⟩ | ⟨hn, rfl⟩
  · exact Or.inr (Or.inr ⟨w, rfl⟩)
  · exact Or.inr (Or.inl ⟨_, hn, rfl⟩)

/-- A lone word is the only word of the input, where parentheses match and no operator stands. -/
theorem ofTokens_eq_loneOperand_iff {ts : List Placed} {w : Text} :
    ofTokens ts = .error (.loneOperand w) ↔ Token.Balanced 0 (ts.map Placed.token) ∧
      (∀ t ∈ ts, t.token.isOperator = false) ∧ ts.filterMap (fun t => t.token.word?) = [w] := by
  have hhead : (reorder ts).errors.head? ≠ some (.loneOperand w) := by
    intro h
    obtain ⟨t, -, hblames⟩ := exists_blames_of_complaint (List.mem_of_mem_head? h)
    exact hblames
  have hparen : ∀ t ∈ (reorder ts).tokens, t.token.isParen = false :=
    fun t ht => (mem_reorder_iff.mp ht).2
  have hoperators : (∀ t ∈ (reorder ts).tokens, t.token.isOperator = false) ↔
      ∀ t ∈ ts, t.token.isOperator = false := by
    refine ⟨fun h t ht => ?_, fun h t ht => h t (mem_reorder_iff.mp ht).1⟩
    cases hparen : t.token.isParen with
    | false => exact h t (mem_reorder_iff.mpr ⟨ht, hparen⟩)
    | true =>
      by_contra hoperator
      obtain ⟨tier, htier⟩ := Option.isSome_iff_exists.mp (Bool.of_not_eq_false hoperator)
      rw [Token.isParen_of_precedence htier] at hparen
      cases hparen
  rw [ofTokens_eq_error_iff, or_iff_right hhead, build_eq_loneOperand_iff hparen, hoperators,
    reorder_words, reorder_errors_eq_nil_iff]

/-- **Every reason points at its culprit.**  The reason for which an expression is refused is about
a token of the prepared text, and names the byte at which this token stands there: a parenthesis,
or an operator with the text that is named.  Or operands are left that do not come together, which
are never one.  Or one word is left alone, which happens exactly where the parentheses match, no
operator stands in the text, and the word is its only one. -/
theorem read_culprit (options : ReadOptions) (s : Text) :
    (∀ e, read options s = .error e →
      (∃ i t, TokenAt (prepare options s) i t ∧
        e.Blames ⟨t, Text.utf8Size ((prepare options s).take i)⟩) ∨
      (∃ n, n ≠ 1 ∧ e = .incompleteExpression n) ∨ ∃ w, e = .loneOperand w) ∧
    ∀ w, read options s = .error (.loneOperand w) ↔
      Token.Balanced 0 ((tokenize (prepare options s)).map Placed.token) ∧
      (∀ t ∈ tokenize (prepare options s), t.token.isOperator = false) ∧
      (tokenize (prepare options s)).filterMap (fun t => t.token.word?) = [w] := by
  constructor
  · intro e h
    refine (blames_of_ofTokens (read_eq_error_iff.mp h).2).imp_left ?_
    rintro ⟨⟨t, b⟩, ht, hblames⟩
    obtain ⟨i, n, hlexeme, rfl⟩ := mem_tokenize_iff.mp ht
    exact ⟨i, t, tokenAt_iff.mpr ⟨n, hlexeme⟩, hblames⟩
  · intro w
    rw [read_eq_error_iff, ofTokens_eq_loneOperand_iff, and_iff_right_of_imp]
    rintro ⟨-, -, hwords⟩ hnil
    have hnone : tokenize [] = [] := by decide +kernel
    rw [hnil, hnone] at hwords
    cases hwords

/-- In `('é' is null) = 1` the comparison finds a condition where it needs a word, and the `=` is
named by its byte 15, though it is the character 14.  Of `((é))` the word is left alone. -/
theorem read_culprit_behind_string :
    let s := "('é' is null) = 1".toList
    (read {} s = .error (.unexpectedOperand .equal 15) ∧
      ∃ i t, TokenAt (prepare {} s) i t ∧ (FilterError.unexpectedOperand .equal 15).Blames
        ⟨t, Text.utf8Size ((prepare {} s).take i)⟩) ∧
    read {} "((é))".toList = .error (.loneOperand ['é']) := by
  intro s
  have hts : tokenize (prepare {} s) = [⟨.openParen, 0⟩, ⟨.word "'é'".toList, 1⟩,
      ⟨.nullTest .is, 6⟩, ⟨.closeParen, 13⟩, ⟨.compare .equal, 15⟩, ⟨.word ['1'], 17⟩] := by
    decide +kernel
  have hread : read {} s = .error (.unexpectedOperand .equal 15) := by
    refine read_eq_error_iff.mpr ⟨by decide +kernel, ?_⟩
    rw [hts]
    rfl
  refine ⟨⟨hread, ?_⟩, ((read_culprit {} _).2 ['é']).mpr ⟨?_, ?_, ?_⟩⟩
  · rcases (read_culprit {} s).1 _ hread with h | ⟨n, -, h⟩ | ⟨w, h⟩
    · exact h
    · cases h
    · cases h
  all_goals decide +kernel

end Filter

end Sieve
