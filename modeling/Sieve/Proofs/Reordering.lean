/-
# Reordering keeps what it is given

Postfix order moves operators and drops parentheses.  It does nothing else, whatever the input
is: every other token comes out once, and the words come out in their order.  A complaint means
that a parenthesis has no partner.  Parentheses around nothing but words do not even delay an
operator, so they may as well not be there.

* `reorder_perm`, `reorder_words`: what comes out, and the order of the words;
* `Token.Balanced`, `reorder_errors_eq_nil_iff`: no complaint says that parentheses match;
* `Unbracketed.exists_reorderFrom_eq`: parentheses around words, dropped.
-/
import Sieve.Proofs.Precedence
import Mathlib.Data.List.TakeWhile

namespace Sieve

/-! ## 1. Kinds of token -/

namespace Token

/-- Whether the token is a parenthesis. -/
def isParen : Token → Bool
  | openParen | closeParen => true
  | _ => false

/-- Whether the token is an operator, which is whether it binds. -/
def isOperator (t : Token) : Bool := t.precedence.isSome

/-- The text of a word. -/
def word? : Token → Option Text
  | word w => some w
  | _ => none

/-- A token is a parenthesis, a word, or an operator of some tier. -/
theorem kinds (t : Token) :
    t = openParen ∨ t = closeParen ∨ (∃ w, t = word w) ∨ ∃ tier, t.precedence = some tier := by
  cases t <;> simp [precedence]

theorem isParen_of_precedence {t : Token} {tier : Nat} (h : t.precedence = some tier) :
    t.isParen = false := by
  cases t <;> simp_all [precedence, isParen]

theorem isWord_of_precedence {t : Token} {tier : Nat} (h : t.precedence = some tier) :
    t.isWord = false := by
  cases t <;> simp_all [precedence, isWord]

end Token

namespace Postfix

@[simp] theorem tokens_emit (out : List Placed) (p : Postfix) :
    (p.emit out).tokens = out ++ p.tokens := rfl

@[simp] theorem errors_emit (out : List Placed) (p : Postfix) :
    (p.emit out).errors = p.errors := rfl

@[simp] theorem tokens_complain (e : FilterError) (p : Postfix) :
    (p.complain e).tokens = p.tokens := rfl

@[simp] theorem errors_complain (e : FilterError) (p : Postfix) :
    (p.complain e).errors = e :: p.errors := rfl

theorem isNotOpen_of_precedence {t : Placed} {tier : Nat} (h : t.token.precedence = some tier) :
    isNotOpen t = true :=
  isNotOpen_of_yields (yields_iff.mpr ⟨tier, h, Nat.le_refl tier⟩)

theorem isNotOpen_eq_false {t : Placed} (h : t.token = .openParen) : isNotOpen t = false := by
  simp [isNotOpen, h]

/-- A closing parenthesis finds the latest open one, if any is open. -/
theorem reorderFrom_closing {t : Placed} (ht : t.token = .closeParen)
    (waiting input : List Placed) :
    (∃ o outer, waiting.dropWhile isNotOpen = o :: outer ∧ isNotOpen o = false ∧
      reorderFrom waiting (t :: input) =
        (reorderFrom outer input).emit (waiting.takeWhile isNotOpen)) ∨
    ((∀ q ∈ waiting, isNotOpen q = true) ∧ reorderFrom waiting (t :: input) =
      ((reorderFrom [] input).complain (.unbalancedParenthesis t.position)).emit waiting) := by
  cases hdrop : waiting.dropWhile isNotOpen with
  | nil =>
    refine Or.inr ⟨List.dropWhile_eq_nil_iff.mp hdrop, ?_⟩
    rw [reorderFrom, ht]
    simp only [hdrop]
  | cons o outer =>
    refine Or.inl ⟨o, outer, rfl, ?_, ?_⟩
    · have hhead := List.head?_dropWhile_not isNotOpen waiting
      simpa [hdrop] using hhead
    · rw [reorderFrom, ht]
      simp only [hdrop]

/-- What goes out in front of a token holds no open parenthesis. -/
theorem filter_isNotOpen_cut {p : Placed → Bool} (hp : ∀ q, p q = true → isNotOpen q = true)
    (waiting : List Placed) : waiting.filter isNotOpen =
      waiting.takeWhile p ++ (waiting.dropWhile p).filter isNotOpen := by
  induction waiting with
  | nil => rfl
  | cons top rest ih =>
    cases h : p top with
    | false => simp [h]
    | true => simp [h, hp top h, ih]

/-! ## 2. What comes out -/

theorem tokens_finish (waiting : List Placed) :
    (finish waiting).tokens = waiting.filter isNotOpen := by
  induction waiting with
  | nil => rfl
  | cons top rest ih =>
    by_cases h : top.token = .openParen
    · simp [finish, h, ih, isNotOpen]
    · simp [finish, h, ih, isNotOpen]

/-- **Nothing is lost and nothing is made up**: the waiting operators and the tokens of the input
come out, all but the parentheses. -/
theorem reorderFrom_perm (ts : List Placed) : ∀ waiting : List Placed,
    (reorderFrom waiting ts).tokens.Perm
      (waiting.filter isNotOpen ++ ts.filter fun t => !t.token.isParen) := by
  induction ts with
  | nil =>
    intro waiting
    simp [reorderFrom, tokens_finish]
  | cons t input ih =>
    intro waiting
    rcases t.token.kinds with ht | ht | ⟨w, ht⟩ | ⟨tier, ht⟩
    · rw [reorderFrom_openParen ht]
      simpa [ht, Token.isParen, isNotOpen] using ih (t :: waiting)
    · have hskip : (t :: input).filter (fun t => !t.token.isParen) =
          input.filter fun t => !t.token.isParen :=
        List.filter_cons_of_neg (by simp [ht, Token.isParen])
      rcases reorderFrom_closing ht waiting input with ⟨o, outer, hdrop, ho, hread⟩ | ⟨hall, hread⟩
      · rw [hread, tokens_emit, filter_isNotOpen_cut (fun _ h => h) waiting, hdrop, hskip,
          List.filter_cons_of_neg (by simp [ho]), List.append_assoc]
        exact (ih outer).append_left _
      · rw [hread, tokens_emit, tokens_complain, List.filter_eq_self.mpr hall, hskip]
        exact (ih []).append_left _
    · rw [reorderFrom_word ht, tokens_emit]
      simpa [ht, Token.isParen] using ((ih waiting).cons t).trans List.perm_middle.symm
    · have hrest := ih (t :: waiting.dropWhile (yields tier))
      rw [List.filter_cons_of_pos (isNotOpen_of_precedence ht)] at hrest
      rw [reorderFrom_precedence ht, tokens_emit,
        filter_isNotOpen_cut (fun _ h => isNotOpen_of_yields h) waiting, List.append_assoc,
        List.filter_cons_of_pos (by simp [Token.isParen_of_precedence ht])]
      exact (hrest.trans List.perm_middle.symm).append_left _

/-- Words go straight out, in their order. -/
theorem filter_isWord_reorderFrom (ts : List Placed) : ∀ waiting : List Placed,
    (∀ q ∈ waiting, q.token.isWord = false) →
    (reorderFrom waiting ts).tokens.filter (fun t => t.token.isWord) =
      ts.filter fun t => t.token.isWord := by
  have hnone : ∀ {l : List Placed}, (∀ q ∈ l, q.token.isWord = false) →
      l.filter (fun t => t.token.isWord) = [] := by
    intro l hl
    exact List.filter_eq_nil_iff.mpr fun q hq => by simp [hl q hq]
  induction ts with
  | nil =>
    intro waiting hw
    rw [reorderFrom, tokens_finish]
    exact hnone fun q hq => hw q (List.mem_filter.mp hq).1
  | cons t input ih =>
    intro waiting hw
    rcases t.token.kinds with ht | ht | ⟨w, ht⟩ | ⟨tier, ht⟩
    · rw [reorderFrom_openParen ht, ih _ (by simpa [ht, Token.isWord] using hw)]
      simp [ht, Token.isWord]
    · rcases reorderFrom_closing ht waiting input with ⟨o, outer, hdrop, -, hread⟩ | ⟨-, hread⟩
      · have hout : ∀ q ∈ waiting.takeWhile isNotOpen, q.token.isWord = false :=
          fun q hq => hw q ((List.takeWhile_prefix _).subset hq)
        have houter : ∀ q ∈ outer, q.token.isWord = false := by
          intro q hq
          refine hw q ((List.dropWhile_suffix isNotOpen).subset ?_)
          rw [hdrop]
          exact List.mem_cons_of_mem o hq
        rw [hread, tokens_emit, List.filter_append, hnone hout, ih outer houter]
        simp [ht, Token.isWord]
      · rw [hread, tokens_emit, tokens_complain, List.filter_append, hnone hw, ih [] (by simp)]
        simp [ht, Token.isWord]
    · rw [reorderFrom_word ht, tokens_emit, List.filter_append, ih waiting hw]
      simp [ht, Token.isWord]
    · have hout : ∀ q ∈ waiting.takeWhile (yields tier), q.token.isWord = false :=
        fun q hq => hw q ((List.takeWhile_prefix _).subset hq)
      have hwait : ∀ q ∈ t :: waiting.dropWhile (yields tier), q.token.isWord = false := by
        intro q hq
        rcases List.mem_cons.mp hq with rfl | hq
        · exact Token.isWord_of_precedence ht
        · exact hw q ((List.dropWhile_suffix _).subset hq)
      rw [reorderFrom_precedence ht, tokens_emit, List.filter_append, hnone hout, ih _ hwait]
      simp [Token.isWord_of_precedence ht]

end Postfix

/-- Every token but the parentheses comes out once. -/
theorem reorder_perm (ts : List Placed) :
    (reorder ts).tokens.Perm (ts.filter fun t => !t.token.isParen) := by
  simpa [reorder] using Postfix.reorderFrom_perm ts []

/-- The words come out in their order. -/
theorem filter_isWord_reorder (ts : List Placed) :
    (reorder ts).tokens.filter (fun t => t.token.isWord) = ts.filter fun t => t.token.isWord :=
  Postfix.filter_isWord_reorderFrom ts [] (by simp)

theorem reorder_words (ts : List Placed) :
    (reorder ts).tokens.filterMap (fun t => t.token.word?) =
      ts.filterMap fun t => t.token.word? := by
  have hkeep : ∀ l : List Placed, (l.filter fun t => t.token.isWord).filterMap
      (fun t => t.token.word?) = l.filterMap fun t => t.token.word? := by
    intro l
    rw [List.filterMap_filter]
    congr 1
    funext t
    cases t.token <;> rfl
  rw [← hkeep, filter_isWord_reorder, hkeep]

/-! ## 3. Parentheses that match -/

/-- Behind `depth` open parentheses, every parenthesis has a partner. -/
def Token.Balanced : Nat → List Token → Prop
  | depth, [] => depth = 0
  | depth, t :: ts =>
    match t with
    | .openParen => Balanced (depth + 1) ts
    | .closeParen => 0 < depth ∧ Balanced (depth - 1) ts
    | _ => Balanced depth ts

/-- A token that is no parenthesis does not change the balance. -/
theorem Token.balanced_cons_of_not_isParen {t : Token} (h : t.isParen = false) {depth : Nat}
    {ts : List Token} : Balanced depth (t :: ts) ↔ Balanced depth ts := by
  cases t <;> simp_all [Balanced, isParen]

namespace Postfix

/-- The number of open parentheses that wait. -/
def depth (waiting : List Placed) : Nat := waiting.countP fun q => !isNotOpen q

theorem depth_eq_zero {waiting : List Placed} (h : ∀ q ∈ waiting, isNotOpen q = true) :
    depth waiting = 0 := by
  refine List.countP_eq_zero.mpr fun q hq => ?_
  simp [h q hq]

theorem depth_dropWhile {p : Placed → Bool} (hp : ∀ q, p q = true → isNotOpen q = true)
    (waiting : List Placed) : depth (waiting.dropWhile p) = depth waiting := by
  induction waiting with
  | nil => rfl
  | cons top rest ih =>
    cases h : p top with
    | false => simp [h]
    | true =>
      rw [List.dropWhile_cons_of_pos h, ih]
      simp [depth, hp top h]

theorem errors_finish_eq_nil_iff (waiting : List Placed) :
    (finish waiting).errors = [] ↔ depth waiting = 0 := by
  induction waiting with
  | nil => simp [finish, depth]
  | cons top rest ih =>
    by_cases h : top.token = .openParen
    · simp [finish, h, depth, isNotOpen]
    · simpa [finish, h, depth, isNotOpen] using ih

/-- **No complaint** means that every parenthesis has a partner. -/
theorem errors_reorderFrom_eq_nil_iff (ts : List Placed) : ∀ waiting : List Placed,
    (reorderFrom waiting ts).errors = [] ↔
      Token.Balanced (depth waiting) (ts.map Placed.token) := by
  induction ts with
  | nil => exact errors_finish_eq_nil_iff
  | cons t input ih =>
    intro waiting
    rw [List.map_cons]
    rcases t.token.kinds with ht | ht | ⟨w, ht⟩ | ⟨tier, ht⟩
    · rw [reorderFrom_openParen ht, ih, ht]
      simp [Token.Balanced, depth, isNotOpen_eq_false ht]
    · rw [ht]
      rcases reorderFrom_closing ht waiting input with ⟨o, outer, hdrop, ho, hread⟩ | ⟨hall, hread⟩
      · have hdepth : depth waiting = depth outer + 1 := by
          rw [← depth_dropWhile (fun _ h => h) waiting, hdrop]
          simp [depth, ho]
        rw [hread, errors_emit, ih, hdepth]
        simp [Token.Balanced]
      · rw [hread, depth_eq_zero hall]
        simp [Token.Balanced]
    · rw [reorderFrom_word ht, errors_emit, ih, ht]
      simp [Token.Balanced]
    · have hdepth : depth (t :: waiting.dropWhile (yields tier)) = depth waiting := by
        rw [← depth_dropWhile (p := yields tier) (fun _ h => isNotOpen_of_yields h) waiting]
        simp [depth, isNotOpen_of_precedence ht]
      rw [reorderFrom_precedence ht, errors_emit, ih, hdepth]
      have hparen := Token.isParen_of_precedence ht
      cases htok : t.token <;> simp_all [Token.Balanced, Token.isParen]

end Postfix

theorem reorder_errors_eq_nil_iff (ts : List Placed) :
    (reorder ts).errors = [] ↔ Token.Balanced 0 (ts.map Placed.token) :=
  Postfix.errors_reorderFrom_eq_nil_iff ts []

/-! ## 4. Parentheses around words -/

/-- The second list is the first without some of the parentheses around nothing but words. -/
inductive Unbracketed : List Token → List Token → Prop
  | nil : Unbracketed [] []
  | keep (t : Token) {ts us : List Token} : Unbracketed ts us → Unbracketed (t :: ts) (t :: us)
  | drop (ws : List Text) {ts us : List Token} : Unbracketed ts us →
      Unbracketed (.openParen :: ws.map .word ++ .closeParen :: ts) (ws.map .word ++ us)

namespace Unbracketed

theorem refl : ∀ ts : List Token, Unbracketed ts ts
  | [] => nil
  | t :: ts => keep t (refl ts)

theorem append {ts us ts' us' : List Token} (h : Unbracketed ts us) (h' : Unbracketed ts' us') :
    Unbracketed (ts ++ ts') (us ++ us') := by
  induction h with
  | nil => exact h'
  | keep t _ ih => exact keep t ih
  | drop ws _ ih => simpa [List.append_assoc] using drop ws ih

end Unbracketed

namespace Postfix

theorem reorderFrom_congr (t : Placed) {ts us : List Placed}
    (h : ∀ waiting, reorderFrom waiting ts = reorderFrom waiting us) (waiting : List Placed) :
    reorderFrom waiting (t :: ts) = reorderFrom waiting (t :: us) := by
  rw [reorderFrom, reorderFrom]
  simp only [h]

/-- Words in parentheses go out like words without them. -/
theorem reorderFrom_bracketed {o c : Placed} (ho : o.token = .openParen)
    (hc : c.token = .closeParen) {ws : List Text} {body : List Placed}
    (hbody : body.map Placed.token = ws.map Token.word) (waiting input : List Placed) :
    reorderFrom waiting (o :: body ++ c :: input) = reorderFrom waiting (body ++ input) := by
  rw [List.cons_append, reorderFrom_openParen ho, reorderFrom_words _ _ hbody,
    reorderFrom_words _ _ hbody]
  have hnone : ∀ q ∈ ([] : List Placed), isNotOpen q = true := by simp
  have hclose := reorderFrom_closeParen hc ho hnone waiting input
  rw [List.nil_append, emit_nil] at hclose
  rw [hclose]

end Postfix

/-- **Parentheses around words do not count**: without them the tokens are reordered alike. -/
theorem Unbracketed.exists_reorderFrom_eq {ts us : List Token} (h : Unbracketed ts us) :
    ∀ {ps : List Placed}, ps.map Placed.token = ts → ∃ qs : List Placed,
      qs.map Placed.token = us ∧
        ∀ waiting, Postfix.reorderFrom waiting ps = Postfix.reorderFrom waiting qs := by
  induction h with
  | nil => exact fun hps => ⟨_, hps, fun _ => rfl⟩
  | keep t _ ih =>
    intro ps hps
    obtain ⟨p, ps, rfl, hp, hps⟩ := List.map_eq_cons_iff.mp hps
    obtain ⟨qs, hqs, heq⟩ := ih hps
    exact ⟨p :: qs, by simp [hp, hqs], Postfix.reorderFrom_congr p heq⟩
  | drop ws _ ih =>
    intro ps hps
    obtain ⟨o, ps, rfl, ho, hps⟩ := List.map_eq_cons_iff.mp hps
    obtain ⟨body, rest, rfl, hbody, hrest⟩ := List.map_eq_append_iff.mp hps
    obtain ⟨c, ps, rfl, hc, hps⟩ := List.map_eq_cons_iff.mp hrest
    obtain ⟨qs, hqs, heq⟩ := ih hps
    refine ⟨body ++ qs, by simp [hbody, hqs], fun waiting => ?_⟩
    rw [← List.cons_append, Postfix.reorderFrom_bracketed ho hc hbody,
      Postfix.reorderFrom_words _ _ hbody, Postfix.reorderFrom_words _ _ hbody, heq]

end Sieve
