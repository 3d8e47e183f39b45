import Helpdesk.Proofs.Query.Rendering
import Helpdesk.Store.Select

/-! What the text of a clause is made of. Its tokens are words of the language, the names of its
columns and placeholders (`spells_toSql`), and apart from blanks there is nothing in a text but its
tokens (`mem_tokens_of_mem`). -/

namespace Helpdesk.Sql

def words : List String :=
  ["SELECT", "FROM", "AS", "LEFT", "JOIN", "ON", "WHERE", "ORDER", "BY", targetAlias, "rowid", "AND",
    "OR", "NOT", "IN", "LIKE", "IS", "NULL", "=", "<>", ">", ">=", "<", "<=", "(", ")", ",", ".", "*",
    "0", "1"]

inductive Spells (columns : List Column) : String → Prop
  | word {w : String} (h : w ∈ words) : Spells columns w
  | qualifier {c : Column} (h : c ∈ columns) : Spells columns c.qualifier
  | field {c : Column} (h : c ∈ columns) : Spells columns c.field
  | place (n : Nat) : Spells columns (Clause.placeText n)

theorem Spells.mono {columns more : List Column} (h : columns ⊆ more) {w : String}
    (spells : Spells columns w) : Spells more w := by
  cases spells with
  | word hw => exact .word hw
  | qualifier hc => exact .qualifier (h hc)
  | field hc => exact .field (h hc)
  | place n => exact .place n

theorem spells_of_subset {columns : List Column} {ws : List String} (h : ws ⊆ words) :
    ∀ w ∈ ws, Spells columns w := fun _ hw => .word (h hw)

theorem spells_append {columns : List Column} {ws ws' : List String}
    (left : ∀ w ∈ ws, Spells columns w) (right : ∀ w ∈ ws', Spells columns w) :
    ∀ w ∈ ws ++ ws', Spells columns w :=
  fun w hw => (List.mem_append.1 hw).elim (left w) (right w)

theorem spells_joinTexts {columns : List Column} {separator : String} (nonempty : separator ≠ "")
    (first : separator.toList.head?.all isLoose) (last : separator.toList.getLast?.all isLoose)
    (known : tokens separator ⊆ words) {texts : List String}
    (h : ∀ s ∈ texts, ∀ w ∈ tokens s, Spells columns w) :
    ∀ w ∈ tokens (Predicate.joinTexts separator texts), Spells columns w := by
  induction texts with
  | nil =>
    have nothing : tokens "" ⊆ words := by decide
    exact spells_of_subset nothing
  | cons s texts ih =>
    have one := h s List.mem_cons_self
    have others := ih fun t ht => h t (List.mem_cons_of_mem _ ht)
    cases texts with
    | nil => exact one
    | cons t texts =>
      have text : Predicate.joinTexts separator (s :: t :: texts) =
          s ++ separator ++ Predicate.joinTexts separator (t :: texts) := rfl
      rw [text, tokens_around nonempty first last]
      exact spells_append (spells_append one (spells_of_subset known)) others

theorem spells_column {columns : List Column} {c : Column} (plain : c.IsPlain) (h : c ∈ columns) :
    ∀ w ∈ tokens c.toText, Spells columns w := by
  rw [tokens_column plain]
  intro w hw
  simp only [List.mem_cons, List.not_mem_nil, or_false] at hw
  rcases hw with rfl | rfl | rfl
  · exact .qualifier h
  · exact .word (by decide)
  · exact .field h

theorem spells_placeText {columns : List Column} (n : Nat) :
    ∀ w ∈ tokens (Clause.placeText n), Spells columns w := by
  rw [tokens_placeText]
  intro w hw
  exact List.mem_singleton.1 hw ▸ .place n

theorem operatorWords_subset (op : Operator) : operatorWords op ⊆ words := by
  cases op <;> decide

theorem spells_parentheses {columns : List Column} {text : String}
    (h : ∀ w ∈ tokens text, Spells columns w) :
    ∀ w ∈ tokens ("(" ++ text ++ ")"), Spells columns w := by
  rw [tokens_append_of_head (by decide), tokens_append_of_getLast (by decide)]
  exact spells_append (spells_append (spells_of_subset (by decide)) h) (spells_of_subset (by decide))

theorem spells_compare {column : Column} (plain : column.IsPlain) (op : Operator) (place : Nat) :
    ∀ w ∈ tokens (Clause.compare column op place).toSql, Spells [column] w := by
  have text : (Clause.compare column op place).toSql =
      column.toText ++ (" " ++ op.sql ++ " ") ++ Clause.placeText place := by
    simp only [Clause.toSql, String.append_assoc]
  rw [text, tokens_around (by simp) (by cases op <;> decide) (by cases op <;> decide),
    tokens_operator]
  exact spells_append
    (spells_append (spells_column plain (by simp)) (spells_of_subset (operatorWords_subset op)))
    (spells_placeText place)

theorem spells_among {column : Column} (plain : column.IsPlain) (op : Operator) (places : List Nat) :
    ∀ w ∈ tokens (Clause.among column op places).toSql, Spells [column] w := by
  have text : (Clause.among column op places).toSql = column.toText ++ (" " ++ op.sql ++ " (") ++
      Predicate.joinTexts ", " (places.map Clause.placeText) ++ ")" := by
    have opening : " " ++ "(" = " (" := by decide
    simp only [Clause.toSql, String.append_assoc, ← opening]
  rw [text, tokens_append_of_head (by decide),
    tokens_around (by simp) (by cases op <;> decide) (by cases op <;> decide), tokens_operator_list]
  refine spells_append (spells_append (spells_append (spells_column plain (by simp)) ?_) ?_)
    (spells_of_subset (by decide))
  · exact spells_append (spells_of_subset (operatorWords_subset op)) (spells_of_subset (by decide))
  · refine spells_joinTexts (by decide) (by decide) (by decide) (by decide) fun s hs => ?_
    obtain ⟨n, -, rfl⟩ := List.mem_map.1 hs
    exact spells_placeText n

theorem spells_nullCheck {column : Column} (plain : column.IsPlain) (negated : Bool) :
    ∀ w ∈ tokens (Clause.nullCheck column negated).toSql, Spells [column] w := by
  rw [Clause.toSql, tokens_append_of_head (by cases negated <;> decide)]
  exact spells_append (spells_column plain (by simp))
    (spells_of_subset (by cases negated <;> decide))

mutual
theorem spells_toSql : (c : Clause) → (∀ column ∈ c.columns, column.IsPlain) →
    ∀ w ∈ tokens c.toSql, Spells c.columns w
  | .fixed holds, _ => spells_of_subset (by cases holds <;> decide)
  | .all terms, plain => spells_parentheses <|
      spells_joinTexts (by decide) (by decide) (by decide) (by decide) (spells_toSqls terms plain)
  | .any terms, plain => spells_parentheses <|
      spells_joinTexts (by decide) (by decide) (by decide) (by decide) (spells_toSqls terms plain)
  | .compare column op place, plain => spells_compare (plain column (by simp [Clause.columns])) op place
  | .among column op places, plain => spells_among (plain column (by simp [Clause.columns])) op places
  | .nullCheck column negated, plain =>
    spells_nullCheck (plain column (by simp [Clause.columns])) negated

theorem spells_toSqls : (cs : List Clause) → (∀ column ∈ Clause.columnsOf cs, column.IsPlain) →
    ∀ s ∈ Clause.toSqls cs, ∀ w ∈ tokens s, Spells (Clause.columnsOf cs) w
  | [], _ => fun s hs => absurd hs List.not_mem_nil
  | c :: cs, plain => fun s hs w hw => by
    rcases List.mem_cons.1 hs with rfl | later
    · exact (spells_toSql c (fun column hc => plain column (List.mem_append_left _ hc)) w hw).mono
        (List.subset_append_left _ _)
    · exact (spells_toSqls cs (fun column hc => plain column (List.mem_append_right _ hc)) s later w
        hw).mono (List.subset_append_right _ _)
end

theorem mem_tokens_of_mem {text : String} {ch : Char} (h : ch ∈ text.toList) :
    ch = ' ' ∨ ∃ w ∈ tokens text, ch ∈ w.toList := by
  rw [← List.flatten_splitBy clings text.toList, List.mem_flatten] at h
  obtain ⟨piece, hp, hc⟩ := h
  by_cases blank : piece = [' ']
  · exact .inl (List.mem_singleton.1 (blank ▸ hc))
  · refine .inr ⟨String.ofList piece, List.mem_map_of_mem (List.mem_filter.2 ⟨hp, by simpa⟩), ?_⟩
    rwa [String.toList_ofList]

end Helpdesk.Sql
