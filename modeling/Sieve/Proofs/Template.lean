/-
# Quoted values are opaque

A program that fills user input into an expression, between single quotes, relies on this: what
stands between the quotes decides the value at that place and nothing else.  Keywords,
operators, parentheses and line breaks in it are part of the value.

An expression with places left open is a template.  Filling the places gives tokens, and no
stage looks into a word: the rewriting copies it, the lexer reads it as one word, and the order
and the tree of the tokens do not depend on the text of words.  So one regrouping of the
template, chosen before anything is filled in, is the tree of every filling.

* `Template`: expressions with open literals, in any grouping;
* `Template.exists_wellBracketed`: a template grouped as it is read, with the same tokens;
* `read_template`: every filling of a template is read as that filling of one tree.
-/
import Sieve.Proofs.ListSpacing
import Sieve.Proofs.Print
import Sieve.Proofs.RoundTrip

namespace Sieve

/-! ## 1. Templates -/

/-- A leaf of a template: a condition, or a comparison with a literal that is left open. The
list of a membership test may stand in parentheses. -/
inductive Slot where
  | comparison (column : Text) (op : Operator) (literal : Text)
  | opened (column : Text) (op : Operator) (place : Nat)
  | membership (column : Text) (op : Operator) (first : Text) (more : List Text)
      (bracketed : Bool)
  | nullTest (column : Text) (op : Operator)

/-- An expression with open literals and with the parentheses it is written with. -/
inductive Template where
  | slot (s : Slot)
  | bracket (inner : Template)
  | join (c : Connective) (left right : Template)

/-- What is filled in at each place. -/
abbrev Contents := Nat → Text

/-- The contents end no string and protect no quote. -/
def Contents.Opaque (contents : Contents) : Prop :=
  ∀ place, ∀ c ∈ contents place, c ≠ '\'' ∧ c ≠ '\\'

namespace Slot

/-- The leaf, with the content of an open literal between single quotes. -/
def leaf (contents : Contents) : Slot → Leaf
  | comparison column op literal => .comparison column op literal
  | opened column op place => .comparison column op (Scalar.quoted (contents place))
  | membership column op first more _ => .membership column op first more
  | nullTest column op => .nullTest column op

/-- The leaf as it is written. -/
def tokens (contents : Contents) : Slot → List Token
  | membership column op first more true =>
    .word column :: .membership op :: .openParen :: (first :: more).map .word ++ [.closeParen]
  | s => (s.leaf contents).tokens

/-- Every word but an open literal is a bare word, and the operator is one of the language. -/
def Bare : Slot → Prop
  | comparison column op literal => IsBare column ∧ op ∈ comparisons ∧ IsBare literal
  | opened column op _ => IsBare column ∧ op ∈ comparisons
  | membership column op first more _ =>
    IsBare column ∧ op ∈ memberships ∧ ∀ w ∈ first :: more, IsBare w
  | nullTest column op => IsBare column ∧ op ∈ nullTests

end Slot

namespace Template

/-- The leaves from left to right. -/
def slots : Template → List Slot
  | slot s => [s]
  | bracket inner => inner.slots
  | join _ left right => left.slots ++ right.slots

/-- What is written when the contents are filled in. -/
def tokens (contents : Contents) : Template → List Token
  | slot s => s.tokens contents
  | bracket inner => .openParen :: inner.tokens contents ++ [.closeParen]
  | join c left right => left.tokens contents ++ c.token :: right.tokens contents

/-- The writing when the contents are filled in. -/
def writing (contents : Contents) : Template → Writing
  | slot s => .leaf (s.leaf contents)
  | bracket inner => .bracket (inner.writing contents)
  | join c left right => .join c (left.writing contents) (right.writing contents)

/-- The filter of the template, grouped as it stands, when the contents are filled in. -/
def filter (d : Template) (contents : Contents) : Filter := (d.writing contents).expr.filter

/-- Every word but the open literals is a bare word. -/
def Bare (d : Template) : Prop := ∀ s ∈ d.slots, s.Bare

/-- The same leaves and, whatever is filled in, the same tokens. Only the grouping may differ. -/
def Regroups (e d : Template) : Prop :=
  e.slots = d.slots ∧ ∀ contents, e.tokens contents = d.tokens contents

/-! ## 2. The grouping that is read -/

/-- How tightly the template holds together, whatever is filled in. -/
def tier : Template → Nat
  | join c _ _ => c.tier
  | _ => 3

@[simp] theorem tier_join (c : Connective) (left right : Template) :
    (join c left right).tier = c.tier := rfl

theorem tier_writing (contents : Contents) (d : Template) : (d.writing contents).tier = d.tier := by
  cases d <;> rfl

/-- The template is grouped as it is read. -/
def WellBracketed (d : Template) : Prop := ∀ contents, (d.writing contents).WellBracketed

theorem wellBracketed_join_iff {c : Connective} {left right : Template} :
    (join c left right).WellBracketed ↔
      left.WellBracketed ∧ right.WellBracketed ∧ c.tier ≤ left.tier ∧ c.tier < right.tier := by
  simp only [WellBracketed, writing, Writing.wellBracketed_join_iff, tier_writing]
  constructor
  · intro h
    obtain ⟨-, -, hl, hr⟩ := h fun _ => []
    exact ⟨fun x => (h x).1, fun x => (h x).2.1, hl, hr⟩
  · rintro ⟨hl, hr, htl, htr⟩ x
    exact ⟨hl x, hr x, htl, htr⟩

/-- Only a join binds as loosely as a connective. -/
theorem exists_join_of_tier {d : Template} {c : Connective} (h : d.tier ≤ c.tier) :
    ∃ c' left right, d = join c' left right := by
  cases d with
  | join c' left right => exact ⟨c', left, right, rfl⟩
  | slot | bracket => cases c <;> simp [tier, Connective.tier] at h

theorem slots_length_pos : ∀ d : Template, 0 < d.slots.length
  | slot _ => Nat.one_pos
  | bracket inner => inner.slots_length_pos
  | join _ left _ => by
    have := left.slots_length_pos
    rw [slots, List.length_append]
    omega

/-- **Two templates grouped as they are read are joined by a connective.**  The connective goes
down the right side of the left one, or the left side of the right one, past all that binds
less tightly, or as tightly on the right. Nothing gets looser than it was. -/
theorem exists_wellBracketed_join (c : Connective) {n : Nat} : ∀ {left right : Template},
    left.slots.length + right.slots.length ≤ n → left.WellBracketed → right.WellBracketed →
    ∃ e : Template, e.WellBracketed ∧ e.Regroups (join c left right) ∧
      min c.tier (min left.tier right.tier) ≤ e.tier := by
  induction n with
  | zero =>
    intro left right hn
    have := left.slots_length_pos
    omega
  | succ n ih =>
    intro left right hn hl hr
    by_cases hloose : left.tier < c.tier ∧ left.tier < right.tier
    · -- the left one is cut at its connective, which stays on top
      obtain ⟨c', l₁, l₂, rfl⟩ := exists_join_of_tier (Nat.le_of_lt hloose.1)
      obtain ⟨hl₁, hl₂, hle, hlt⟩ := wellBracketed_join_iff.mp hl
      have hpos := l₁.slots_length_pos
      rw [slots, List.length_append] at hn
      obtain ⟨e, he, ⟨hslots, htokens⟩, htier⟩ := ih (by omega) hl₂ hr
      rw [tier_join] at hloose ⊢
      refine ⟨join c' l₁ e, wellBracketed_join_iff.mpr ⟨hl₁, he, hle, by omega⟩, ⟨?_, fun x => ?_⟩,
        by rw [tier_join]; omega⟩
      · simp [slots, hslots]
      · simp [tokens, htokens]
    by_cases htight : c.tier < right.tier
    · exact ⟨join c left right, wellBracketed_join_iff.mpr ⟨hl, hr, by omega, htight⟩,
        ⟨rfl, fun _ => rfl⟩, by rw [tier]; omega⟩
    · -- the right one is cut at its connective
      obtain ⟨c', r₁, r₂, rfl⟩ := exists_join_of_tier (Nat.le_of_not_lt htight)
      obtain ⟨hr₁, hr₂, hle, hlt⟩ := wellBracketed_join_iff.mp hr
      have hpos := r₂.slots_length_pos
      rw [slots, List.length_append] at hn
      obtain ⟨e, he, ⟨hslots, htokens⟩, htier⟩ := ih (by omega) hl hr₁
      rw [tier_join] at hloose htight ⊢
      refine ⟨join c' e r₂, wellBracketed_join_iff.mpr ⟨he, hr₂, by omega, hlt⟩, ⟨?_, fun x => ?_⟩,
        by rw [tier_join]; omega⟩
      · simp [slots, hslots]
      · simp [tokens, htokens]

/-- **Every template can be grouped as it is read.** -/
theorem exists_wellBracketed (d : Template) : ∃ e : Template, e.WellBracketed ∧ e.Regroups d := by
  induction d with
  | slot s => exact ⟨slot s, fun _ => trivial, rfl, fun _ => rfl⟩
  | bracket inner ih =>
    obtain ⟨e, hwell, hslots, htokens⟩ := ih
    exact ⟨bracket e, hwell, hslots, fun x => by rw [tokens, htokens, tokens]⟩
  | join c left right ihl ihr =>
    obtain ⟨l, hl, hsl, htl⟩ := ihl
    obtain ⟨r, hr, hsr, htr⟩ := ihr
    obtain ⟨e, hwell, ⟨hslots, htokens⟩, -⟩ := exists_wellBracketed_join c (Nat.le_refl _) hl hr
    refine ⟨e, hwell, ?_, fun x => ?_⟩
    · rw [hslots, slots, slots, hsl, hsr]
    · rw [htokens, tokens, tokens, htl, htr]

/-! ## 3. What is written -/

theorem leaves_writing (contents : Contents) (d : Template) :
    (d.writing contents).expr.leaves = d.slots.map (Slot.leaf contents) := by
  induction d with
  | slot s => rfl
  | bracket inner ih => exact ih
  | join c left right ihl ihr =>
    rw [slots, List.map_append, ← ihl, ← ihr]
    rfl

theorem plain_writing (contents : Contents) (d : Template) :
    (d.writing contents).expr.Plain := by
  intro l hl
  rw [leaves_writing] at hl
  obtain ⟨s, -, rfl⟩ := List.mem_map.mp hl
  cases s <;> rfl

/-- The tokens of the template are those of its writing, up to parentheses around lists. -/
theorem unbracketed_tokens (contents : Contents) (d : Template) :
    Unbracketed (d.tokens contents) (d.writing contents).tokens := by
  induction d with
  | slot s =>
    cases s with
    | comparison | opened | nullTest => exact .refl _
    | membership column op first more bracketed =>
      cases bracketed with
      | false => exact .refl _
      | true =>
        have hlist := Unbracketed.drop (first :: more) .nil
        rw [List.append_nil] at hlist
        exact .keep _ (.keep _ hlist)
  | bracket inner ih => exact .append (.keep _ ih) (.refl _)
  | join c left right ihl ihr => exact ihl.append (.keep _ ihr)

/-- A template starts with a word or a parenthesis. -/
theorem head_tokens (contents : Contents) (d : Template) :
    ∃ t ts, d.tokens contents = t :: ts ∧ ∀ k : Keyword, t ≠ k.token := by
  induction d with
  | slot s =>
    have hword : ∀ w (k : Keyword), .word w ≠ k.token := fun w k => by cases k <;> exact nofun
    cases s with
    | comparison | opened | nullTest => exact ⟨_, _, rfl, hword _⟩
    | membership column op first more bracketed => cases bracketed <;> exact ⟨_, _, rfl, hword _⟩
  | bracket inner =>
    refine ⟨.openParen, inner.tokens contents ++ [.closeParen], rfl, fun k => ?_⟩
    cases k <;> exact nofun
  | join c left right ihl =>
    obtain ⟨t, ts, hts, ht⟩ := ihl
    exact ⟨t, ts ++ c.token :: right.tokens contents, by rw [tokens, hts]; rfl, ht⟩

end Template

/-- Contents that are opaque make a string that can be printed. -/
theorem Contents.Opaque.printable {contents : Contents} (h : contents.Opaque) (place : Nat) :
    (Token.word (Scalar.quoted (contents place))).Printable :=
  .quoted rfl (h place)

theorem Slot.Bare.printable {contents : Contents} (hx : contents.Opaque) {s : Slot}
    (hs : s.Bare) : ∀ t ∈ s.tokens contents, t.Printable := by
  cases s with
  | comparison column op literal =>
    obtain ⟨hcolumn, hop, hliteral⟩ := hs
    have hoperator : (Token.compare op).Printable := .operator (by simp [Token.precedence]) hop
    simp only [tokens, leaf, Leaf.tokens, List.forall_mem_cons]
    exact ⟨.bare hcolumn, hoperator, .bare hliteral, List.forall_mem_nil _⟩
  | opened column op place =>
    obtain ⟨hcolumn, hop⟩ := hs
    have hoperator : (Token.compare op).Printable := .operator (by simp [Token.precedence]) hop
    simp only [tokens, leaf, Leaf.tokens, List.forall_mem_cons]
    exact ⟨.bare hcolumn, hoperator, hx.printable place, List.forall_mem_nil _⟩
  | membership column op first more bracketed =>
    obtain ⟨hcolumn, hop, hlist⟩ := hs
    have hoperator : (Token.membership op).Printable := .operator (by simp [Token.precedence]) hop
    have hwords : ∀ t ∈ (first :: more).map Token.word, t.Printable :=
      List.forall_mem_map.mpr fun w hw => .bare (hlist w hw)
    cases bracketed with
    | false =>
      simp only [tokens, leaf, Leaf.tokens, List.forall_mem_cons]
      exact ⟨.bare hcolumn, hoperator, hwords⟩
    | true =>
      simp only [tokens, List.cons_append, List.forall_mem_cons, List.forall_mem_append]
      exact ⟨.bare hcolumn, hoperator, .openParen, hwords, .closeParen, List.forall_mem_nil _⟩
  | nullTest column op =>
    obtain ⟨hcolumn, hop⟩ := hs
    have hoperator : (Token.nullTest op).Printable := .operator (by simp [Token.precedence]) hop
    simp only [tokens, leaf, Leaf.tokens, List.forall_mem_cons]
    exact ⟨.bare hcolumn, hoperator, List.forall_mem_nil _⟩

namespace Template

theorem bare_join_iff {c : Connective} {left right : Template} :
    (join c left right).Bare ↔ left.Bare ∧ right.Bare := by
  simp only [Bare, slots, List.forall_mem_append]

/-- Every token of a filled template can be printed. -/
theorem Bare.printable {contents : Contents} (hx : contents.Opaque) {d : Template}
    (hd : d.Bare) : ∀ t ∈ d.tokens contents, t.Printable := by
  induction d with
  | slot s => exact (hd s List.mem_cons_self).printable hx
  | bracket inner ih =>
    simp only [tokens, List.cons_append, List.forall_mem_cons, List.forall_mem_append]
    exact ⟨.openParen, ih hd, .closeParen, List.forall_mem_nil _⟩
  | join c left right ihl ihr =>
    obtain ⟨hl, hr⟩ := bare_join_iff.mp hd
    have hc : c.token.Printable := .operator (by simp) (by cases c <;> trivial)
    simp only [tokens, List.forall_mem_append, List.forall_mem_cons]
    exact ⟨ihl hl, hc, ihr hr⟩

end Template

/-! ## 4. What the contents decide -/

/-- The two entries differ at most in their values, and the same text is written for them. -/
structure Node.Alike (n n' : Node) : Prop where
  marked : n.marked = n'.marked
  clause : n.clause? = n'.clause?

theorem Slot.Bare.alike {s : Slot} (hs : s.Bare) (x y : Contents) :
    (s.leaf x).node.Alike (s.leaf y).node := by
  cases s with
  | comparison | membership | nullTest => exact ⟨rfl, rfl⟩
  | opened column op place =>
    have hop : op ∈ comparisons ++ memberships := List.mem_append_left _ hs.2
    exact ⟨rfl, congrArg some ((clause_of_not_is hop _).trans (clause_of_not_is hop _).symm)⟩

namespace Template

variable {d : Template}

theorem Bare.alike (hd : d.Bare) (x y : Contents) :
    (d.writing x).expr.node.Alike (d.writing y).expr.node := by
  induction d with
  | slot s => exact (hd s List.mem_cons_self).alike x y
  | bracket inner ih => exact ih hd
  | join c left right ihl ihr =>
    obtain ⟨hl, hr⟩ := bare_join_iff.mp hd
    obtain ⟨hml, hcl⟩ := ihl hl
    obtain ⟨hmr, hcr⟩ := ihr hr
    constructor
    · simp [writing, Writing.expr, Expr.node, Node.marked, nodesMarked, hml, hmr]
    · simp [writing, Writing.expr, Expr.node, Node.clause?, nodeClauses, hcl, hcr]

/-- **The contents decide values only**: with others in their place, the filter has the same
shape, columns and operators, and the same text in a WHERE clause. -/
theorem Bare.filter_alike (hd : d.Bare) (x y : Contents) :
    (d.filter x).marked = (d.filter y).marked ∧ (d.filter x).clause = (d.filter y).clause := by
  induction d with
  | slot s =>
    obtain ⟨hm, hc⟩ := (hd s List.mem_cons_self).alike x y
    simp [filter, writing, Writing.expr, Expr.filter, Filter.leaf, Filter.marked, nodesMarked,
      Filter.clause, nodeClauses, hm, hc]
  | bracket inner ih => exact ih hd
  | join c left right ihl ihr =>
    obtain ⟨hl, hr⟩ := bare_join_iff.mp hd
    obtain ⟨hml, hcl⟩ := hl.alike x y
    obtain ⟨hmr, hcr⟩ := hr.alike x y
    simp [filter, writing, Writing.expr, Expr.filter, Filter.marked, nodesMarked, Filter.clause,
      nodeClauses, hml, hmr, hcl, hcr]

end Template

/-! ## 5. Reading a filled template -/

section

variable {ts : List Token} {ps : List Text}

theorem forall_print_ends (h : List.Forall₂ Token.IsPrint ts ps)
    (hts : ∀ t ∈ ts, t.Printable) : ∀ p ∈ ps,
    (∃ c u, p = c :: u ∧ isBlank c = false) ∧ ∃ u c, p = u ++ [c] ∧ isBlank c = false := by
  induction h with
  | nil => exact List.forall_mem_nil _
  | cons hp _ ih =>
    obtain ⟨ht, hts⟩ := List.forall_mem_cons.mp hts
    exact List.forall_mem_cons.mpr ⟨ht.print_ends hp, ih hts⟩

/-- What is printed has no blanks around it, so only its keywords change before it is read. -/
theorem prepare_print (hts : ∀ t ∈ ts, t.Printable) (hprint : List.Forall₂ Token.IsPrint ts ps)
    (hstart : ∀ t ∈ ts.head?, ∀ k : Keyword, t ≠ k.token) :
    Filter.prepare {} ([' '].intercalate ps) = [' '].intercalate (ts.map Token.text) := by
  have htrim : Text.trim ([' '].intercalate ps) = [' '].intercalate ps := by
    have hends := forall_print_ends hprint hts
    cases ps with
    | nil => rfl
    | cons p ps =>
      obtain ⟨⟨c, u, hp, hc⟩, -⟩ := hends p List.mem_cons_self
      obtain ⟨v, d, hlast, hd⟩ := intercalate_ends [' '] (List.cons_ne_nil p ps)
        fun q hq => (hends q hq).2
      refine Text.trim_eq_self ?_ ?_
      · rw [Keyword.intercalate_eq_spaced, hp]
        simpa using hc
      · rw [hlast]
        simpa using hd
  rw [Filter.prepare, if_pos rfl, htrim, capitalize_print hts hprint hstart]

end

/-- **Quoted values are opaque.**  A template of bare words has one grouping such that, whatever
is filled in, what is printed is read as that filling of the grouping: the value at each place
is that of the text given there, and all else, the clause included, is the same for all. -/
theorem read_template {d : Template} (hd : d.Bare) :
    ∃ e : Template, e.Regroups d ∧
      (∀ x y, (e.filter x).marked = (e.filter y).marked ∧
        (e.filter x).clause = (e.filter y).clause) ∧
      ∀ contents : Contents, contents.Opaque → ∀ ps,
        List.Forall₂ Token.IsPrint (d.tokens contents) ps →
          Filter.read {} ([' '].intercalate ps) = .ok (e.filter contents) := by
  obtain ⟨e, hwell, hslots, htokens⟩ := d.exists_wellBracketed
  have he : e.Bare := fun s hs => hd s (hslots ▸ hs)
  refine ⟨e, ⟨hslots, htokens⟩, he.filter_alike, fun contents hx ps hps => ?_⟩
  have hts := hd.printable hx
  obtain ⟨t, ts, hcons, hkeyword⟩ := d.head_tokens contents
  have hstart : ∀ t ∈ (d.tokens contents).head?, ∀ k : Keyword, t ≠ k.token := by
    rw [hcons]
    rintro t ⟨⟩
    exact hkeyword
  have hprepare := prepare_print hts hps hstart
  have hread := tokens_intercalate_text hts
  have hun := e.unbracketed_tokens contents
  rw [htokens] at hun
  refine Filter.read_of_writing ?_ ?_ hun (hwell contents) (e.plain_writing contents)
  · -- a text without tokens would be blank
    intro hnil
    rw [← hprepare, hnil, Text.tokens_nil, hcons] at hread
    cases hread
  · rw [hprepare]
    exact hread

/-- `a = '…' or b in ( 1, 2 ) and c like '…'`, once with harmless texts and once with an attempt
to close the condition. The template joins the `or` first, the reader the `and`. -/
theorem read_template_hostile :
    let d : Template := .join .and (.join .or (.slot (.opened ['a'] .equal 0))
      (.slot (.membership ['b'] .inList ['1', ','] [['2']] true))) (.slot (.opened ['c'] .like 1))
    let harmless : Contents := fun place => if place = 0 then ['z'] else ['%']
    let hostile : Contents := fun place =>
      if place = 0 then ") or (1 = 1\n or".toList else "is null".toList
    d.Bare ∧ harmless.Opaque ∧ hostile.Opaque ∧ ∃ f g,
      Filter.read {} "a = 'z' or b in ( 1, 2 ) and c like '%'".toList = .ok f ∧
      Filter.read {} "a = ') or (1 = 1\n or' or b in ( 1, 2 ) and c like 'is null'".toList = .ok g ∧
      f.marked = g.marked ∧ f.clause = g.clause := by
  intro d harmless hostile
  have hd : d.Bare := by
    have hlist : ∀ w ∈ [['1', ','], ['2']], IsBare w := by decide
    exact List.forall_mem_cons.mpr ⟨⟨by decide, by decide⟩, List.forall_mem_cons.mpr
      ⟨⟨by decide, by decide, hlist⟩, List.forall_mem_singleton.mpr ⟨by decide, by decide⟩⟩⟩
  have hopaque : harmless.Opaque ∧ hostile.Opaque := by
    have hall : ∀ u : Text, (u.all fun c => decide (c ≠ '\'' ∧ c ≠ '\\')) = true →
        ∀ c ∈ u, c ≠ '\'' ∧ c ≠ '\\' :=
      fun u hu c hc => of_decide_eq_true (List.all_eq_true.mp hu c hc)
    constructor
    · intro place
      simp only [harmless]
      split <;> exact hall _ (by decide)
    · intro place
      simp only [hostile]
      split <;> exact hall _ (by decide)
  obtain ⟨e, -, hsame, hread⟩ := read_template hd
  have hf := hread harmless hopaque.1 [['a'], ['='], "'z'".toList, "or".toList, ['b'], "in".toList,
    ['('], "1,".toList, ['2'], [')'], "and".toList, ['c'], "like".toList, "'%'".toList] (by decide)
  have hg := hread hostile hopaque.2 [['a'], ['='], "') or (1 = 1\n or'".toList, "or".toList, ['b'],
    "in".toList, ['('], "1,".toList, ['2'], [')'], "and".toList, ['c'], "like".toList,
    "'is null'".toList] (by decide)
  exact ⟨hd, hopaque.1, hopaque.2, e.filter harmless, e.filter hostile, hf, hg,
    hsame harmless hostile⟩

end Sieve
