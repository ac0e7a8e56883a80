/-
# Lists are read literal by literal

The lexer tears a list apart: a comma stays at the bare word in front of it and is a word of its
own behind a string.  Run together, the words are the literals with commas between, whatever
stands in the strings, and the cut at the commas outside quotes gives the literals back.
Parentheses around the list are dropped with the reordering.

* `bracketedListText`: a list between parentheses;
* `read_spaced`, `read_spaced_bracketed`: closed words, with a comma and a blank between, are read
  as the pieces that come of joining them;
* `isItem_iff`: literals are the words that are strings or hold neither quotes nor commas;
* `read_list_items`: a list of literals is read as its literals.
-/
import Sieve.Proofs.ListSpacing

namespace Sieve

/-- A membership test with a list of literals between parentheses. -/
def bracketedListText (column : Text) (op : Operator) (sep : Text) (items : List Text) : Text :=
  column ++ ' ' :: op.text ++ ' ' :: ('(' :: sep.intercalate items ++ [')'])

section

variable {column : Text} {op : Operator} {items : List Text}

/-! ## 1. Words with a comma and a blank between -/

/-- **A list of closed words** is read as the pieces of the words with commas between. -/
theorem read_spaced (hop : op ∈ memberships) (hne : items ≠ [])
    (hitems : ∀ i ∈ items, IsClosedWord i)
    (hcolumn : TokenAt (listText column op [',', ' '] items) 0 (.word column)) :
    Filter.read ⟨false⟩ (listText column op [',', ' '] items) = .ok (.leaf (.condition
      ⟨column, op, some (.list ((splitList ([','].intercalate items)).map cast))⟩)) := by
  obtain ⟨first, more, hflat, htokens⟩ := tokens_spaced_append (r := []) (by simp) hne hitems
  rw [List.append_nil, Text.tokens_nil, List.append_nil] at htokens
  have hwords : Unbracketed (Text.tokens ([',', ' '].intercalate items))
      ((first :: more).map .word) := htokens ▸ .refl _
  rw [← hflat]
  exact read_membership hop (tokenAt_listText_iff.mp hcolumn)
    (intercalate_ends _ hne fun i hi => (hitems i hi).ends) hwords

/-- So it is between parentheses. -/
theorem read_spaced_bracketed (hop : op ∈ memberships) (hne : items ≠ [])
    (hitems : ∀ i ∈ items, IsClosedWord i)
    (hcolumn : TokenAt (bracketedListText column op [',', ' '] items) 0 (.word column)) :
    Filter.read ⟨false⟩ (bracketedListText column op [',', ' '] items) = .ok (.leaf (.condition
      ⟨column, op, some (.list ((splitList ([','].intercalate items)).map cast))⟩)) := by
  obtain ⟨first, more, hflat, htokens⟩ := tokens_spaced_append (r := [')']) (by simp) hne hitems
  have hbracketed : Text.tokens ('(' :: [',', ' '].intercalate items ++ [')']) =
      .openParen :: (first :: more).map .word ++ [.closeParen] := by
    have hopen := (leads_openParen ([',', ' '].intercalate items ++ [')'])).tokens
    have hclose := (leads_closeParen []).tokens
    rw [Text.tokens_nil, List.append_nil] at hclose
    rw [htokens, hclose] at hopen
    simpa using hopen
  have hwords : Unbracketed (Text.tokens ('(' :: [',', ' '].intercalate items ++ [')']))
      ((first :: more).map .word) := by
    rw [hbracketed]
    simpa using Unbracketed.drop (first :: more) .nil
  have hassoc : bracketedListText column op [',', ' '] items =
      column ++ ' ' :: (op.text ++ ' ' :: ('(' :: [',', ' '].intercalate items ++ [')'])) := by
    simp [bracketedListText]
  rw [hassoc, tokenAt_zero_iff] at hcolumn
  rw [← hflat]
  exact read_membership hop hcolumn ⟨_, ')', rfl, by decide⟩ hwords

/-! ## 2. Literals -/

/-- **The literals of lists** among the words: closed strings, and words without quotes and
commas. -/
theorem isItem_iff {i : Text} : IsItem i ↔
    IsWord i ∧ (quotedLength? i = some i.length ∨ ∀ c ∈ i, c ≠ ',' ∧ isQuote c = false) := by
  constructor
  · intro h
    refine ⟨h.isClosedWord.isWord, ?_⟩
    cases h with
    | quoted h => exact Or.inl h
    | bare _ hchars => exact Or.inr fun c hc => ⟨(hchars c hc).1, (hchars c hc).2.1⟩
  · rintro ⟨hword, hquoted | hchars⟩
    · exact .quoted hquoted
    · have hbare := hword.endsBareWord_eq_false
        fun c hc => (hchars c (List.mem_of_mem_head? hc)).2
      exact .bare hword fun c hc => ⟨(hchars c hc).1, (hchars c hc).2, hbare c hc⟩

/-- **Lists are read literal by literal.**  Behind a column and an operator, literals with a
comma and a blank between are read as the list of their values, in their order, and so they are
between parentheses. -/
theorem read_list_items (hcolumn : IsClosedWord column) (hnot : column ≠ "NOT".toList)
    (hop : op ∈ memberships) (hne : items ≠ [])
    (hitems : ∀ i ∈ items, IsWord i ∧
      (quotedLength? i = some i.length ∨ ∀ c ∈ i, c ≠ ',' ∧ isQuote c = false)) :
    Filter.read ⟨false⟩ (listText column op [',', ' '] items) =
        .ok (.leaf (.condition ⟨column, op, some (.list (items.map cast))⟩)) ∧
      Filter.read ⟨false⟩ (bracketedListText column op [',', ' '] items) =
        .ok (.leaf (.condition ⟨column, op, some (.list (items.map cast))⟩)) := by
  have hitem : ∀ i ∈ items, IsItem i := fun i hi => isItem_iff.mpr (hitems i hi)
  have hclosed : ∀ i ∈ items, IsClosedWord i := fun i hi => (hitem i hi).isClosedWord
  have hbegins : ∀ body : Text, TokenAt (column ++ ' ' :: op.text ++ ' ' :: body) 0 (.word column) := by
    intro body
    have hlead := hcolumn.leads hnot (t := .membership op) (by simp [Token.precedence]) hop
      (' ' :: body)
    simpa [Token.text] using tokenAt_zero_iff.mpr hlead
  have hcut := splitList_intercalate hne hitem
  constructor
  · rw [read_spaced hop hne hclosed (hbegins _), hcut]
  · rw [read_spaced_bracketed hop hne hclosed (hbegins _), hcut]

end

/-- In `"my col" NOT IN ('a, (b', IS)` a comma, a blank and a parenthesis stand in the first
literal, and the second begins a keyword. -/
theorem read_list_items_nested :
    let column : Text := "\"my col\"".toList
    let items : List Text := ["'a, (b'".toList, "IS".toList]
    let s := "\"my col\" NOT IN ('a, (b', IS)".toList
    bracketedListText column .notInList [',', ' '] items = s ∧ Filter.read ⟨false⟩ s =
      .ok (.leaf (.condition ⟨column, .notInList, some (.list (items.map cast))⟩)) := by
  intro column items s
  have hitems : ∀ i ∈ items, IsWord i ∧
      (quotedLength? i = some i.length ∨ ∀ c ∈ i, c ≠ ',' ∧ isQuote c = false) := by
    simp only [items, List.forall_mem_cons]
    refine ⟨⟨by decide +kernel, Or.inl (by decide)⟩, ⟨by decide +kernel, Or.inr ?_⟩, by simp⟩
    simp [isQuote]
  have h := @read_list_items column .notInList items (.of_quoted (by decide)) (by decide)
    (by decide) (by simp [items]) hitems
  exact ⟨rfl, h.2⟩

end Sieve
