/-
# The grammar, and what is accepted beyond it

The grammar of expressions says that operators stand between or behind their operands.  The
reader does not look at where they stand: it reorders the tokens and folds them, and refuses
what leaves too few or too many entries.  `= a b` is read as `a = b`.

Here is how far that goes.  Cut the tokens into conditions, fragments, connectives and
parentheses.  If that can be done, and if no two operands stand side by side, then whatever
else is wrong is refused: a missing operand, a connective too many, an empty pair of
parentheses, a parenthesis without a partner, a word alone.

* `Derives`: the grammar;
* `Piece`: what tokens are cut into;
* `Postfix.length_fold_le`: a fold never leaves more entries than operands, less connectives;
* `derives_iff_pieces`: an accepted input is in the grammar if and only if it can be cut.
-/
import Sieve.Proofs.Fragment
import Sieve.Proofs.Front
import Sieve.Proofs.Provenance
import Mathlib.Data.List.Chain

namespace Sieve

/-! ## 1. The grammar -/

/-- The token lists of the grammar. `isList` says which words are those of a list of literals
with commas between; nothing here depends on it. The index tells a fragment, in any number of
parentheses, from all else: alone it is no expression. -/
inductive Derives (isList : List Text → Prop) : Bool → List Token → Prop
  | fragment (text : Text) : Derives isList true [.word text]
  | comparison {op : Operator} (hop : op ∈ comparisons) (column literal : Text) :
      Derives isList false [.word column, .compare op, .word literal]
  | membership {op : Operator} (hop : op ∈ memberships) (column : Text) {first : Text}
      {more : List Text} (hlist : isList (first :: more)) :
      Derives isList false (.word column :: .membership op :: (first :: more).map .word)
  | bracketedList {op : Operator} (hop : op ∈ memberships) (column : Text) {first : Text}
      {more : List Text} (hlist : isList (first :: more)) :
      Derives isList false (.word column :: .membership op :: .openParen ::
        (first :: more).map .word ++ [.closeParen])
  | nullTest {op : Operator} (hop : op ∈ nullTests) (column : Text) :
      Derives isList false [.word column, .nullTest op]
  | bracket {lone : Bool} {ts : List Token} (h : Derives isList lone ts) :
      Derives isList lone (.openParen :: ts ++ [.closeParen])
  | connect (c : Connective) {a b : Bool} {left right : List Token}
      (hl : Derives isList a left) (hr : Derives isList b right) :
      Derives isList false (left ++ c.token :: right)

/-! ## 2. Pieces -/

/-- What tokens are cut into: leaves, where a list may stand in parentheses, connectives and
other parentheses. -/
inductive Piece where
  | leaf (l : Leaf)
  | bracketedList (column : Text) (op : Operator) (first : Text) (more : List Text)
  | connective (c : Connective)
  | openParen
  | closeParen

namespace Piece

/-- What the piece is written with. -/
def tokens : Piece → List Token
  | leaf l => l.tokens
  | bracketedList column op first more =>
    .word column :: .membership op :: .openParen :: (first :: more).map .word ++ [.closeParen]
  | connective c => [c.token]
  | openParen => [.openParen]
  | closeParen => [.closeParen]

/-- Whether an operand begins with the piece. -/
def opens : Piece → Bool
  | leaf _ | bracketedList .. | openParen => true
  | connective _ | closeParen => false

/-- Whether an operand ends with the piece. -/
def closes : Piece → Bool
  | leaf _ | bracketedList .. | closeParen => true
  | connective _ | openParen => false

/-- The second piece may follow the first: no operand begins where another one ends. -/
def MayPrecede (p q : Piece) : Prop := p.closes = true → q.opens = false

/-- The words of a list in the piece are those of a list of literals with commas between. -/
def ListsAs (isList : List Text → Prop) : Piece → Prop
  | leaf (.membership _ _ first more) => isList (first :: more)
  | bracketedList _ _ first more => isList (first :: more)
  | _ => True

/-- The number of operands among the pieces. -/
def operands (ps : List Piece) : Nat := ps.countP fun p => p.opens && p.closes

/-- The number of connectives among the pieces. -/
def connectives (ps : List Piece) : Nat := ps.countP fun p => !p.opens && !p.closes

/-- Operands and connectives alternate, from a place that is, or is not, behind an operand. -/
def Alternates : Bool → List Piece → Prop
  | behind, [] => behind = true
  | behind, p :: ps => p.opens = !behind ∧ Alternates p.closes ps

/-- **Counting is enough**: without operands side by side there are at most as many operands as
there is room for, and if there are as many, then they alternate with the connectives. -/
theorem operands_le {ps : List Piece} : ∀ {behind : Bool}, ps.IsChain MayPrecede →
    (∀ q ∈ ps.head?, behind = true → q.opens = false) →
    operands ps + behind.toNat ≤ connectives ps + 1 ∧
      (operands ps + behind.toNat = connectives ps + 1 → Alternates behind ps) := by
  induction ps with
  | nil =>
    intro behind _ _
    cases behind <;> simp [operands, connectives, Alternates]
  | cons p ps ih =>
    intro behind hchain hhead
    have hp : behind = true → p.opens = false := hhead p (by simp)
    have hnext : ∀ q ∈ ps.head?, p.closes = true → q.opens = false := by
      intro q hq
      cases ps with
      | nil => cases hq
      | cons q' ps =>
        obtain rfl : q' = q := by simpa using hq
        exact (List.isChain_cons_cons.mp hchain).1
    obtain ⟨hle, heq⟩ := ih hchain.tail hnext
    have hops : operands (p :: ps) = operands ps + (p.opens && p.closes).toNat := by
      rw [operands, List.countP_cons, operands]
      cases p.opens && p.closes <;> rfl
    have hcons : connectives (p :: ps) = connectives ps + (!p.opens && !p.closes).toNat := by
      rw [connectives, List.countP_cons, connectives]
      cases !p.opens && !p.closes <;> rfl
    rw [hops, hcons, Alternates]
    cases hopens : p.opens with
    | true =>
      -- an operand begins here, so none ended before
      obtain rfl : behind = false := by
        cases behind with
        | false => rfl
        | true => rw [hp rfl] at hopens; cases hopens
      exact ⟨hle, fun h => ⟨rfl, heq h⟩⟩
    | false =>
      -- a connective or a closing parenthesis, in its place behind an operand only
      simp only [Bool.false_and, Bool.not_false, Bool.true_and, Bool.toNat_false, Nat.add_zero]
      cases hcloses : p.closes <;> rw [hcloses] at hle heq <;> cases behind <;>
        simp only [Bool.toNat_true, Bool.toNat_false, Bool.not_false, Bool.not_true] at hle heq ⊢
      · exact ⟨by omega, fun h => by omega⟩
      · exact ⟨by omega, fun h => ⟨trivial, heq (by omega)⟩⟩
      · exact ⟨by omega, fun h => by omega⟩
      · exact ⟨by omega, fun h => ⟨trivial, heq (by omega)⟩⟩

end Piece

/-! ## 3. Reordering pieces -/

namespace Postfix

/-- Nothing waits but connectives and open parentheses. -/
def BetweenOperands (waiting : List Placed) : Prop :=
  ∀ q ∈ waiting, q.token = .openParen ∨ ∃ c : Connective, q.token = c.token

theorem BetweenOperands.quiet {waiting : List Placed} (h : BetweenOperands waiting) :
    Quiet 3 waiting := by
  intro top htop
  rcases h top (List.mem_of_mem_head? htop) with ht | ⟨c, ht⟩
  · simp [yields, ht, Token.precedence]
  · cases c <;> simp [yields, ht, Connective.token, Token.precedence]

/-- All but the open parentheses are connectives. -/
theorem BetweenOperands.connective {waiting : List Placed} (h : BetweenOperands waiting)
    {q : Placed} (hq : q ∈ waiting) (hnot : isNotOpen q = true) :
    ∃ c : Connective, q.token = c.token := by
  rcases h q hq with ht | hc
  · rw [isNotOpen_eq_false ht] at hnot
    cases hnot
  · exact hc

theorem BetweenOperands.dropWhile {waiting : List Placed} (h : BetweenOperands waiting)
    (p : Placed → Bool) : BetweenOperands (waiting.dropWhile p) :=
  fun q hq => h q ((List.dropWhile_suffix p).subset hq)

/-- No operand begins the rest of the input. -/
def NoOperandNext (input : List Placed) : Prop :=
  ∀ t ∈ input.head?, t.token = .closeParen ∨ ∃ c : Connective, t.token = c.token

/-- The operator of a condition goes out as soon as its operand is complete. -/
theorem reorderFrom_flush {input : List Placed} (h : NoOperandNext input) {q : Placed}
    (hq : yields 3 q = true) (waiting : List Placed) :
    reorderFrom (q :: waiting) input = (reorderFrom waiting input).emit [q] := by
  have hopen := isNotOpen_of_yields hq
  cases input with
  | nil =>
    have htop : q.token ≠ .openParen := by simpa [isNotOpen] using hopen
    simp [reorderFrom, finish, htop]
  | cons t input =>
    rcases h t rfl with ht | ⟨c, ht⟩
    · rw [reorderFrom, reorderFrom, ht]
      simp only [List.dropWhile_cons_of_pos hopen, List.takeWhile_cons_of_pos hopen]
      cases waiting.dropWhile isNotOpen with
      | nil => rfl
      | cons o outer => rfl
    · have hp : t.token.precedence = some c.tier := by rw [ht]; exact c.precedence_token
      have hyields : yields c.tier q = true :=
        yields_mono (by cases c <;> simp [Connective.tier]) hq
      rw [reorderFrom_precedence hp, reorderFrom_precedence hp,
        List.dropWhile_cons_of_pos hyields, List.takeWhile_cons_of_pos hyields, emit_emit]
      rfl

/-- A leaf goes out as a whole, if no operand follows it. -/
theorem reorderFrom_leaf {waiting : List Placed} (hw : BetweenOperands waiting) (l : Leaf)
    {ts input : List Placed} (hts : ts.map Placed.token = l.tokens) (h : NoOperandNext input) :
    ∃ out, out.map Placed.token = l.reordered ∧
      reorderFrom waiting (ts ++ input) = (reorderFrom waiting input).emit out := by
  obtain ⟨out, pend, hread, hpend, htok⟩ := reads_leaf l hw.quiet hts
  refine ⟨out ++ pend, htok, ?_⟩
  rw [hread input, ← emit_emit]
  congr 1
  clear hread htok
  induction pend with
  | nil => simp
  | cons q pend ih =>
    rw [List.cons_append, reorderFrom_flush h (hpend q List.mem_cons_self),
      ih fun r hr => hpend r (List.mem_cons_of_mem q hr), emit_emit]
    rfl

/-- A membership test with its list in parentheses is reordered like one without. -/
theorem reorderFrom_bracketedList {column first : Text} {op : Operator} {more : List Text}
    {ts : List Placed}
    (hts : ts.map Placed.token = (Piece.bracketedList column op first more).tokens) :
    ∃ us : List Placed, us.map Placed.token = (Leaf.membership column op first more).tokens ∧
      ∀ waiting input, reorderFrom waiting (ts ++ input) = reorderFrom waiting (us ++ input) := by
  obtain ⟨a, ts, rfl, ha, hts⟩ := List.map_eq_cons_iff.mp hts
  obtain ⟨b, ts, rfl, hb, hts⟩ := List.map_eq_cons_iff.mp hts
  obtain ⟨o, ts, rfl, ho, hts⟩ := List.map_eq_cons_iff.mp hts
  obtain ⟨body, last, rfl, hbody, hlast⟩ := List.map_eq_append_iff.mp hts
  obtain ⟨c, last, rfl, hc, hlast⟩ := List.map_eq_cons_iff.mp hlast
  obtain rfl := List.map_eq_nil_iff.mp hlast
  refine ⟨a :: b :: body, by simp [ha, hb, hbody, Leaf.tokens], fun waiting input => ?_⟩
  have hin : a :: b :: o :: (body ++ [c]) ++ input = a :: b :: (o :: body ++ c :: input) := by simp
  rw [hin]
  exact reorderFrom_congr a (reorderFrom_congr b fun w => reorderFrom_bracketed ho hc hbody w input)
    waiting

/-! ## 4. Entries are at most operands, less connectives -/

/-- Every connective takes two entries for one. -/
theorem length_fold_connectives {out : List Placed}
    (hout : ∀ q ∈ out, ∃ c : Connective, q.token = c.token) : ∀ {stack final : List Node},
    out.foldlM Filter.step stack = .ok final → final.length + out.length ≤ stack.length := by
  induction out with
  | nil =>
    intro stack final h
    cases h
    exact Nat.le_refl _
  | cons q out ih =>
    intro stack final h
    rw [List.foldlM_cons] at h
    obtain ⟨stack₁, hstep, hrest⟩ := bind_eq_ok_iff.mp h
    obtain ⟨c, hc⟩ := hout q List.mem_cons_self
    rw [Filter.step_connective hc] at hstep
    obtain ⟨left, right, below, rfl, rfl⟩ := Filter.reduceGroup_eq_ok hstep
    have hle := ih (fun r hr => hout r (List.mem_cons_of_mem q hr)) hrest
    simp only [List.length_cons] at hle ⊢
    omega

/-- A leaf adds one entry at most; it takes words away if it is a membership test with words
below it. -/
theorem length_fold_leaf {l : Leaf} {out : List Placed} (hout : out.map Placed.token = l.reordered)
    {stack final : List Node} (h : out.foldlM Filter.step stack = .ok final) :
    final.length ≤ stack.length + 1 := by
  have hbounded : Filter.Bounded (stack.length + 1) (out.foldlM Filter.step stack) :=
    (Filter.foldlM_step_leaf_bounded l hout).1
  rw [h] at hbounded
  rcases hbounded with ⟨final', heq, -, hle⟩ | ⟨c, position, heq⟩
  · cases heq
    exact hle
  · cases heq

/-- The number of connectives that wait. -/
def pending (waiting : List Placed) : Nat := (waiting.filter isNotOpen).length

/-- Connectives that go out take as many entries away. -/
theorem length_fold_takeWhile {waiting : List Placed} (hw : BetweenOperands waiting)
    {p : Placed → Bool} (hp : ∀ q, p q = true → isNotOpen q = true) {stack final : List Node}
    (h : (waiting.takeWhile p).foldlM Filter.step stack = .ok final) :
    final.length + pending waiting ≤ stack.length + pending (waiting.dropWhile p) := by
  have hle := length_fold_connectives (fun q hq => hw.connective
    ((List.takeWhile_prefix p).subset hq) (hp q (List.mem_takeWhile_imp hq))) h
  rw [pending, filter_isNotOpen_cut hp waiting, List.length_append, pending]
  omega

/-- Behind an operand comes no other one. -/
theorem noOperandNext {p : Piece} {ps : List Piece} (hchain : (p :: ps).IsChain Piece.MayPrecede)
    (hp : p.closes = true) {rest : List Placed}
    (hrest : rest.map Placed.token = ps.flatMap Piece.tokens) : NoOperandNext rest := by
  intro t ht
  cases ps with
  | nil =>
    rw [List.map_eq_nil_iff.mp hrest] at ht
    cases ht
  | cons q ps =>
    have hq := (List.isChain_cons_cons.mp hchain).1 hp
    cases q with
    | leaf | bracketedList | openParen => cases hq
    | connective c =>
      obtain ⟨t', rest, rfl, ht', -⟩ := List.map_eq_cons_iff.mp hrest
      cases ht
      exact Or.inr ⟨c, ht'⟩
    | closeParen =>
      obtain ⟨t', rest, rfl, ht', -⟩ := List.map_eq_cons_iff.mp hrest
      cases ht
      exact Or.inl ht'

/-- **Counting entries.**  Where no operands stand side by side, a fold that succeeds leaves at
most as many entries as there are operands more than connectives. -/
theorem length_fold_le {ps : List Piece} (hchain : ps.IsChain Piece.MayPrecede) :
    ∀ {ts waiting : List Placed} {stack final : List Node},
    ts.map Placed.token = ps.flatMap Piece.tokens → BetweenOperands waiting →
    (reorderFrom waiting ts).errors = [] →
    (reorderFrom waiting ts).tokens.foldlM Filter.step stack = .ok final →
    final.length + Piece.connectives ps + pending waiting ≤ stack.length + Piece.operands ps := by
  induction ps with
  | nil =>
    intro ts waiting stack final hts hw _ hfold
    obtain rfl := List.map_eq_nil_iff.mp hts
    rw [reorderFrom, tokens_finish] at hfold
    have hout : ∀ q ∈ waiting.filter isNotOpen, ∃ c : Connective, q.token = c.token :=
      fun q hq => hw.connective (List.mem_filter.mp hq).1 (List.mem_filter.mp hq).2
    have hle := length_fold_connectives hout hfold
    simpa [pending, Piece.connectives, Piece.operands] using hle
  | cons p ps ih =>
    intro ts waiting stack final hts hw herr hfold
    have ih := fun {ts waiting stack final} => @ih hchain.tail ts waiting stack final
    rw [List.flatMap_cons] at hts
    obtain ⟨front, rest, rfl, hfront, hrest⟩ := List.map_eq_append_iff.mp hts
    -- an operand counts one, whatever its list is written like
    have hoperand : ∀ (l : Leaf) (us : List Placed), us.map Placed.token = l.tokens →
        p.opens = true → p.closes = true →
        reorderFrom waiting (front ++ rest) = reorderFrom waiting (us ++ rest) →
        final.length + Piece.connectives (p :: ps) + pending waiting ≤
          stack.length + Piece.operands (p :: ps) := by
      intro l us hus hopens hcloses heq
      obtain ⟨out, hout, hread⟩ :=
        reorderFrom_leaf hw l hus (noOperandNext hchain hcloses hrest)
      rw [heq, hread] at hfold herr
      rw [tokens_emit, List.foldlM_append] at hfold
      obtain ⟨stack₁, hleaf, hfold⟩ := bind_eq_ok_iff.mp hfold
      have hle := ih hrest hw herr hfold
      have hone := length_fold_leaf hout hleaf
      simp only [Piece.connectives, Piece.operands, List.countP_cons, hopens, hcloses] at hle ⊢
      simp only [Bool.not_true, Bool.and_self, Bool.false_eq_true, if_false, if_true] at hle ⊢
      omega
    cases p with
    | leaf l => exact hoperand l front hfront rfl rfl rfl
    | bracketedList column op first more =>
      obtain ⟨us, hus, heq⟩ := reorderFrom_bracketedList hfront
      exact hoperand _ us hus rfl rfl (heq waiting rest)
    | openParen =>
      obtain ⟨o, front, rfl, ho, hfront⟩ := List.map_eq_cons_iff.mp hfront
      obtain rfl := List.map_eq_nil_iff.mp hfront
      rw [List.singleton_append, reorderFrom_openParen ho] at hfold herr
      have hw' : BetweenOperands (o :: waiting) := by
        intro q hq
        rcases List.mem_cons.mp hq with rfl | hq
        · exact Or.inl ho
        · exact hw q hq
      have hle := ih hrest hw' herr hfold
      simpa [pending, Piece.connectives, Piece.operands, Piece.opens, Piece.closes,
        isNotOpen_eq_false ho] using hle
    | closeParen =>
      obtain ⟨t, front, rfl, ht, hfront⟩ := List.map_eq_cons_iff.mp hfront
      obtain rfl := List.map_eq_nil_iff.mp hfront
      rw [List.singleton_append] at hfold herr
      rcases reorderFrom_closing ht waiting rest with ⟨o, outer, hdrop, ho, hread⟩ | ⟨-, hread⟩
      · rw [hread] at hfold herr
        rw [tokens_emit, List.foldlM_append] at hfold
        obtain ⟨stack₁, hout, hfold⟩ := bind_eq_ok_iff.mp hfold
        have hw' : BetweenOperands outer := by
          intro q hq
          refine hw.dropWhile isNotOpen q ?_
          rw [hdrop]
          exact List.mem_cons_of_mem o hq
        have hle := ih hrest hw' herr hfold
        have htake := length_fold_takeWhile hw (fun _ h => h) hout
        have houter : pending (o :: outer) = pending outer := by simp [pending, ho]
        rw [hdrop, houter] at htake
        simp only [Piece.connectives, Piece.operands, List.countP_cons, Piece.opens, Piece.closes]
          at hle ⊢
        simp only [Bool.not_false, Bool.not_true, Bool.and_false, Bool.false_and,
          Bool.false_eq_true, if_false] at hle ⊢
        omega
      · rw [hread] at herr
        cases herr
    | connective c =>
      obtain ⟨t, front, rfl, ht, hfront⟩ := List.map_eq_cons_iff.mp hfront
      obtain rfl := List.map_eq_nil_iff.mp hfront
      have hp : t.token.precedence = some c.tier := by rw [ht]; exact c.precedence_token
      rw [List.singleton_append, reorderFrom_precedence hp] at hfold herr
      rw [tokens_emit, List.foldlM_append] at hfold
      obtain ⟨stack₁, hout, hfold⟩ := bind_eq_ok_iff.mp hfold
      have hw' : BetweenOperands (t :: waiting.dropWhile (yields c.tier)) := by
        intro q hq
        rcases List.mem_cons.mp hq with rfl | hq
        · exact Or.inr ⟨c, ht⟩
        · exact hw.dropWhile _ q hq
      have hle := ih hrest hw' herr hfold
      have htake : stack₁.length + pending waiting ≤
          stack.length + pending (waiting.dropWhile (yields c.tier)) :=
        length_fold_takeWhile hw (fun _ h => isNotOpen_of_yields h) hout
      have hcons : pending (t :: waiting.dropWhile (yields c.tier)) =
          pending (waiting.dropWhile (yields c.tier)) + 1 := by
        simp [pending, isNotOpen_of_precedence hp]
      rw [hcons] at hle
      simp only [Piece.connectives, Piece.operands, List.countP_cons, Piece.opens, Piece.closes]
        at hle ⊢
      simp only [Bool.not_false, Bool.and_self, Bool.false_eq_true, if_false, if_true] at hle ⊢
      omega

end Postfix

/-! ## 5. Pieces that alternate are in the grammar -/

namespace Token.Balanced

/-- Tokens that are no parentheses do not change the balance. -/
theorem skip {front rest : List Token} (hfront : ∀ t ∈ front, t.isParen = false) {depth : Nat} :
    Balanced depth (front ++ rest) ↔ Balanced depth rest := by
  induction front with
  | nil => rfl
  | cons t front ih =>
    rw [List.cons_append, balanced_cons_of_not_isParen (hfront t List.mem_cons_self),
      ih fun u hu => hfront u (List.mem_cons_of_mem t hu)]

end Token.Balanced

/-- What the lexer and a reader of lists make sure of: the operators of the piece are those of
the language, and the words of its list are those of a list. -/
def Piece.Sound (isList : List Text → Prop) (p : Piece) : Prop :=
  (∀ t ∈ p.tokens, t.Known) ∧ p.ListsAs isList

variable {isList : List Text → Prop}

/-- A sound piece that is an operand is in the grammar. -/
theorem Piece.Sound.derives {p : Piece} (hp : p.Sound isList) (hopens : p.opens = true)
    (hcloses : p.closes = true) : ∃ lone, Derives isList lone p.tokens := by
  obtain ⟨hknown, hlist⟩ := hp
  cases p with
  | leaf l =>
    cases l with
    | comparison column op literal =>
      exact ⟨_, .comparison (hknown (.compare op) (by simp [tokens, Leaf.tokens])) column literal⟩
    | membership column op first more =>
      exact ⟨_, .membership (hknown (.membership op) (by simp [tokens, Leaf.tokens])) column hlist⟩
    | nullTest column op =>
      exact ⟨_, .nullTest (hknown (.nullTest op) (by simp [tokens, Leaf.tokens])) column⟩
    | fragment text => exact ⟨_, .fragment text⟩
  | bracketedList column op first more =>
    exact ⟨_, .bracketedList (hknown (.membership op) (by simp [tokens])) column hlist⟩
  | openParen => cases hcloses
  | connective | closeParen => cases hopens

namespace Piece

/-- An operand has as many parentheses that close as that open, in this order. -/
theorem balanced_operand {p : Piece} (hopens : p.opens = true) (hcloses : p.closes = true)
    {depth : Nat} {rest : List Token} :
    Token.Balanced depth (p.tokens ++ rest) ↔ Token.Balanced depth rest := by
  have hwords : ∀ (ws : List Text) (d : Nat) (us : List Token),
      Token.Balanced d (ws.map .word ++ us) ↔ Token.Balanced d us := by
    intro ws d us
    exact Token.Balanced.skip (by simp [Token.isParen])
  cases p with
  | leaf l => exact Token.Balanced.skip (by cases l <;> simp [tokens, Leaf.tokens, Token.isParen])
  | bracketedList column op first more =>
    simp only [tokens, List.cons_append, List.append_assoc, Token.Balanced, hwords]
    simp
  | openParen => cases hcloses
  | connective | closeParen => cases hopens

/-- The pieces begin with something of the grammar, and it ends where the pieces end or where
a parenthesis closes that was opened before. -/
def Begins (isList : List Text → Prop) (depth : Nat) (ps : List Piece) : Prop :=
  ∃ lone front rest, ps = front ++ rest ∧ Derives isList lone (front.flatMap tokens) ∧
    Token.Balanced depth (rest.flatMap tokens) ∧
    (rest = [] ∨ ∃ rest', rest = closeParen :: rest' ∧ Alternates true rest')

/-- Behind an operand the input ends, a parenthesis closes, or a connective joins it with what
begins there. -/
theorem begins_of_operand {lone : Bool} (front : List Piece) {rest : List Piece} {depth : Nat}
    (hfront : Derives isList lone (front.flatMap tokens)) (halt : Alternates true rest)
    (hbal : Token.Balanced depth (rest.flatMap tokens))
    (hnext : ∀ c more, rest = connective c :: more → Begins isList depth more) :
    Begins isList depth (front ++ rest) := by
  match rest with
  | [] => exact ⟨lone, front, [], rfl, hfront, hbal, Or.inl rfl⟩
  | closeParen :: more =>
    exact ⟨lone, front, closeParen :: more, rfl, hfront, hbal, Or.inr ⟨more, rfl, halt.2⟩⟩
  | connective c :: more =>
    obtain ⟨lone', right, rest, rfl, hright, hbal', hrest⟩ := hnext c more rfl
    refine ⟨false, front ++ connective c :: right, rest, by simp, ?_, hbal', hrest⟩
    rw [List.flatMap_append, List.flatMap_cons]
    exact .connect c hfront hright
  | leaf _ :: _ | bracketedList .. :: _ | openParen :: _ => exact absurd halt.1 (by simp [opens])

/-- **Descent.**  Where sound pieces alternate and parentheses match, the pieces begin with
something of the grammar. -/
theorem begins {n : Nat} : ∀ {ps : List Piece} {depth : Nat}, ps.length ≤ n →
    Alternates false ps → Token.Balanced depth (ps.flatMap tokens) →
    (∀ p ∈ ps, p.Sound isList) → Begins isList depth ps := by
  induction n with
  | zero =>
    intro ps depth hlen halt
    obtain rfl := List.length_eq_zero_iff.mp (Nat.le_zero.mp hlen)
    cases halt
  | succ n ih =>
    intro ps depth hlen halt hbal hsound
    obtain ⟨p, ps, rfl⟩ : ∃ p ps', ps = p :: ps' := by
      cases ps with
      | nil => cases halt
      | cons p ps' => exact ⟨p, ps', rfl⟩
    obtain ⟨hopens, halt⟩ := halt
    have hlen' : ps.length ≤ n := by simpa using hlen
    have hsound' : ∀ q ∈ ps, q.Sound isList := fun q hq => hsound q (List.mem_cons_of_mem p hq)
    -- behind a connective further on, an operand begins again
    have hnext : ∀ {d : Nat} {rest : List Piece}, rest <:+ ps → Alternates true rest →
        Token.Balanced d (rest.flatMap tokens) →
        ∀ c more, rest = connective c :: more → Begins isList d more := by
      rintro d rest hsuffix halt hbal c more rfl
      have hmore := (List.suffix_cons (connective c) more).trans hsuffix
      refine ih (hmore.length_le.trans hlen') halt.2 ?_ fun q hq => hsound' q (hmore.subset hq)
      exact (Token.Balanced.skip
        (by cases c <;> simp [tokens, Connective.token, Token.isParen])).mp hbal
    cases hcloses : p.closes with
    | true =>
      obtain ⟨lone, hp⟩ := (hsound p List.mem_cons_self).derives hopens hcloses
      rw [hcloses] at halt
      have hbal' := (balanced_operand hopens hcloses).mp hbal
      exact begins_of_operand [p] (by simpa using hp) halt hbal'
        (hnext (List.suffix_refl ps) halt hbal')
    | false =>
      obtain rfl : p = openParen := by
        cases p with
        | openParen => rfl
        | leaf | bracketedList => cases hcloses
        | connective | closeParen => cases hopens
      obtain ⟨lone, inner, rest, rfl, hinner, hbal', hrest⟩ := ih hlen' halt hbal hsound'
      rcases hrest with rfl | ⟨rest, rfl, halt'⟩
      · cases hbal'
      · have hwhole : openParen :: (inner ++ closeParen :: rest) =
            (openParen :: inner ++ [closeParen]) ++ rest := by simp
        have hsuffix : rest <:+ inner ++ closeParen :: rest := ⟨inner ++ [closeParen], by simp⟩
        have hbracket :
            Derives isList lone ((openParen :: inner ++ [closeParen]).flatMap tokens) := by
          rw [List.flatMap_append, List.flatMap_cons]
          exact .bracket hinner
        rw [hwhole]
        exact begins_of_operand _ hbracket halt' hbal'.2 (hnext hsuffix halt' hbal'.2)

/-- Sound pieces that alternate, with parentheses that match, are in the grammar. -/
theorem derives_of_alternates {ps : List Piece} (halt : Alternates false ps)
    (hbal : Token.Balanced 0 (ps.flatMap tokens)) (hsound : ∀ p ∈ ps, p.Sound isList) :
    ∃ lone, Derives isList lone (ps.flatMap tokens) := by
  obtain ⟨lone, front, rest, rfl, hfront, hbal', hrest⟩ :=
    begins (Nat.le_refl _) halt hbal hsound
  rcases hrest with rfl | ⟨rest, rfl, -⟩
  · exact ⟨lone, by simpa using hfront⟩
  · exact absurd hbal'.1 (Nat.lt_irrefl 0)

end Piece

/-! ## 6. What is in the grammar can be cut -/

/-- What the grammar derives can be cut into pieces, with no operands side by side. -/
theorem Derives.exists_pieces {lone : Bool} {ts : List Token} (h : Derives isList lone ts) :
    ∃ ps : List Piece, ps.flatMap Piece.tokens = ts ∧ ps.IsChain Piece.MayPrecede ∧
      ∀ p ∈ ps, p.ListsAs isList := by
  have hone : ∀ {p : Piece}, p.ListsAs isList → ∃ ps : List Piece,
      ps.flatMap Piece.tokens = p.tokens ∧ ps.IsChain Piece.MayPrecede ∧
        ∀ q ∈ ps, q.ListsAs isList := by
    intro p hp
    exact ⟨[p], by simp, List.isChain_singleton p, by simpa using hp⟩
  induction h with
  | fragment text => exact hone (p := .leaf (.fragment text)) trivial
  | @comparison op _ column literal =>
    exact hone (p := .leaf (.comparison column op literal)) trivial
  | @membership op _ column first more hlist =>
    exact hone (p := .leaf (.membership column op first more)) hlist
  | @bracketedList op _ column first more hlist =>
    exact hone (p := .bracketedList column op first more) hlist
  | @nullTest op _ column => exact hone (p := .leaf (.nullTest column op)) trivial
  | bracket _ ih =>
    obtain ⟨ps, rfl, hchain, hlist⟩ := ih
    refine ⟨.openParen :: ps ++ [.closeParen], by simp [Piece.tokens], ?_, ?_⟩
    · refine List.isChain_append.mpr ⟨?_, List.isChain_singleton _, ?_⟩
      · refine List.isChain_cons.mpr ⟨fun q _ h => ?_, hchain⟩
        cases h
      · rintro x - y hy -
        obtain rfl : Piece.closeParen = y := by simpa using hy
        rfl
    · intro p hp
      simp only [List.cons_append, List.mem_cons, List.mem_append, List.not_mem_nil, or_false] at hp
      rcases hp with rfl | hp | rfl
      · trivial
      · exact hlist p hp
      · trivial
  | connect c _ _ ihl ihr =>
    obtain ⟨ps, rfl, hchain, hlist⟩ := ihl
    obtain ⟨qs, rfl, hchain', hlist'⟩ := ihr
    refine ⟨ps ++ .connective c :: qs, by simp [Piece.tokens], ?_, ?_⟩
    · refine List.isChain_append.mpr ⟨hchain, List.isChain_cons.mpr ⟨fun q _ h => ?_, hchain'⟩, ?_⟩
      · cases h
      · rintro x - y hy -
        obtain rfl : Piece.connective c = y := by simpa using hy
        rfl
    · intro p hp
      simp only [List.mem_append, List.mem_cons] at hp
      rcases hp with hp | rfl | hp
      · exact hlist p hp
      · trivial
      · exact hlist' p hp

/-- A fragment in parentheses is a single word otherwise. -/
theorem Derives.filter_isParen {lone : Bool} {ts : List Token} (h : Derives isList lone ts)
    (hlone : lone = true) : ∃ w, ts.filter (fun t => !t.isParen) = [.word w] := by
  induction h with
  | fragment text => exact ⟨text, rfl⟩
  | bracket _ ih =>
    obtain ⟨w, hw⟩ := ih hlone
    exact ⟨w, by simpa [Token.isParen] using hw⟩
  | comparison | membership | bracketedList | nullTest | connect => cases hlone

/-- A grammatical text begins with a word or an open parenthesis. -/
theorem Derives.head {lone : Bool} {ts : List Token} (h : Derives isList lone ts) :
    ∃ t ∈ ts.head?, t = .openParen ∨ ∃ w, t = .word w := by
  induction h with
  | fragment text => exact ⟨_, rfl, Or.inr ⟨text, rfl⟩⟩
  | comparison _ column | membership _ column | bracketedList _ column | nullTest _ column =>
    exact ⟨_, rfl, Or.inr ⟨column, rfl⟩⟩
  | bracket => exact ⟨_, rfl, Or.inl rfl⟩
  | connect c _ _ ih =>
    obtain ⟨t, ht, hkind⟩ := ih
    exact ⟨t, by simp_all, hkind⟩

/-! ## 7. What is accepted -/

theorem Expr.isFragment_of_operators {e : Expr} (h : e.operators = []) : e.isFragment = true := by
  match e with
  | .leaf (.fragment _) => rfl

/-- A word alone, in any number of parentheses, is not accepted. -/
theorem Filter.not_lone_of_build {ts : List Placed} {f : Filter}
    (h : build (reorder ts).tokens = .ok f) : ¬ Derives isList true (ts.map Placed.token) := by
  intro hlone
  obtain ⟨w, hw⟩ := hlone.filter_isParen rfl
  obtain ⟨e, ⟨-, hfrag⟩, -, hops⟩ := exists_expr_of_build h
  have hperm := (reorder_perm ts).map Placed.token
  have hkeep : (ts.filter fun t => !t.token.isParen).map Placed.token = [.word w] := by
    rw [← hw, List.filter_map]
    rfl
  rw [hkeep] at hperm
  have hnone : e.operators = [] := (hops.trans (hperm.filter _)).eq_nil
  rw [Expr.isFragment_of_operators hnone] at hfrag
  cases hfrag

theorem Filter.length_of_finish {stack : List Node} {f : Filter} (h : finish stack = .ok f) :
    stack.length = 1 := by
  match stack with
  | [] => cases h
  | [_] => rfl
  | _ :: _ :: _ => simp [finish] at h

/-- **Accepted and in the grammar.**  If an input is accepted and is not blank, then its tokens
are in the grammar if and only if they can be cut into conditions, fragments, connectives and
parentheses with no operand or open parenthesis right behind an operand or closing one.
Whatever else the grammar asks for, such as operands for all connectives and parentheses that
match, every accepted input has. -/
theorem derives_iff_pieces (isList : List Text → Prop) {options : ReadOptions} {s : Text}
    {f : Filter} (h : Filter.read options s = .ok f) (hf : f.isEmpty = false) :
    Derives isList false ((tokenize (Filter.prepare options s)).map Placed.token) ↔
      ∃ ps : List Piece,
        ps.flatMap Piece.tokens = (tokenize (Filter.prepare options s)).map Placed.token ∧
        ps.IsChain Piece.MayPrecede ∧ ∀ p ∈ ps, p.ListsAs isList := by
  have hknown : ∀ t ∈ tokenize (Filter.prepare options s), t.token.Known :=
    known_of_mem_tokenizeFrom
  obtain ⟨herr, hbuild⟩ := Filter.ofTokens_eq_ok_iff.mp (Filter.ofTokens_of_read h hf)
  generalize tokenize (Filter.prepare options s) = ts at hknown herr hbuild
  refine ⟨Derives.exists_pieces, ?_⟩
  rintro ⟨ps, hps, hchain, hlist⟩
  obtain ⟨stack, hrun, hfinish⟩ := bind_eq_ok_iff.mp hbuild
  have hcount :=
    Postfix.length_fold_le hchain hps.symm (by simp [Postfix.BetweenOperands]) herr hrun
  have hone := Filter.length_of_finish hfinish
  obtain ⟨hroom, halternates⟩ := @Piece.operands_le ps false hchain (by simp)
  have halt : Piece.Alternates false ps := by
    refine halternates ?_
    simp only [Bool.toNat_false, List.length_nil] at hroom hcount ⊢
    omega
  have hbal := (reorder_errors_eq_nil_iff ts).mp herr
  rw [← hps] at hbal
  have hsound : ∀ p ∈ ps, p.Sound isList := by
    refine fun p hp => ⟨fun t ht => ?_, hlist p hp⟩
    have hmem : t ∈ ts.map Placed.token := hps ▸ List.mem_flatMap.mpr ⟨p, hp, ht⟩
    obtain ⟨q, hq, rfl⟩ := List.mem_map.mp hmem
    exact hknown q hq
  obtain ⟨lone, hder⟩ := Piece.derives_of_alternates halt hbal hsound
  rw [hps] at hder
  cases lone with
  | false => exact hder
  | true => exact absurd hder (Filter.not_lone_of_build hbuild)

/-- `a = 1 AND (b IN (2, 3) OR x=1)` is accepted and can be cut, so it is in the grammar. -/
theorem derives_iff_pieces_nested :
    let s := "a = 1 AND (b IN (2, 3) OR x=1)".toList
    let isList : List Text → Prop := fun ws => ws = [['2', ','], ['3']]
    ∃ f, Filter.read {} s = .ok f ∧ f.isEmpty = false ∧
      Derives isList false ((tokenize (Filter.prepare {} s)).map Placed.token) := by
  intro s isList
  let ts : List Placed := [⟨.word ['a'], 0⟩, ⟨.compare .equal, 2⟩, ⟨.word ['1'], 4⟩, ⟨.and, 6⟩,
    ⟨.openParen, 10⟩, ⟨.word ['b'], 11⟩, ⟨.membership .inList, 13⟩, ⟨.openParen, 16⟩,
    ⟨.word ['2', ','], 17⟩, ⟨.word ['3'], 20⟩, ⟨.closeParen, 21⟩, ⟨.or, 23⟩,
    ⟨.word ['x', '=', '1'], 26⟩, ⟨.closeParen, 29⟩]
  let ps : List Piece := [.leaf (.comparison ['a'] .equal ['1']), .connective .and, .openParen,
    .bracketedList ['b'] .inList ['2', ','] [['3']], .connective .or,
    .leaf (.fragment ['x', '=', '1']), .closeParen]
  have hts : tokenize (Filter.prepare {} s) = ts := by decide +kernel
  obtain ⟨f, hof, hf⟩ : ∃ f, Filter.ofTokens ts = .ok f ∧ f.isEmpty = false := ⟨_, rfl, rfl⟩
  have hread : Filter.read {} s = .ok f := Filter.read_of_ofTokens (by decide +kernel) hts hof
  refine ⟨f, hread, hf, (derives_iff_pieces isList hread hf).mpr ⟨ps, by rw [hts]; rfl, ?_, ?_⟩⟩
  · simp [ps, Piece.MayPrecede, Piece.closes, Piece.opens]
  · simp [ps, Piece.ListsAs, isList]

/-- `= a b` is accepted, and read as `a = b`, but no reading of the grammar begins with an
operator. -/
theorem accepted_operator_first :
    let s := "= a b".toList
    Filter.read {} s = .ok (Expr.leaf (.comparison ['a'] .equal ['b'])).filter ∧
      ∀ (isList : List Text → Prop) (lone : Bool),
        ¬ Derives isList lone ((tokenize (Filter.prepare {} s)).map Placed.token) := by
  intro s
  let ts : List Placed := [⟨.compare .equal, 0⟩, ⟨.word ['a'], 2⟩, ⟨.word ['b'], 4⟩]
  have hts : tokenize (Filter.prepare {} s) = ts := by decide +kernel
  refine ⟨Filter.read_of_ofTokens (by decide +kernel) hts rfl, fun isList lone h => ?_⟩
  rw [hts] at h
  obtain ⟨t, ht, hkind⟩ := h.head
  obtain rfl : Token.compare .equal = t := by simpa [ts] using ht
  simp at hkind

end Sieve
