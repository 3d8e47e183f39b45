import Helpdesk.Proofs.Query.Spelling
import Helpdesk.Proofs.Rule.Erasure
import Helpdesk.Proofs.Rule.Plain

/-! What the text of a compiled rule is made of. Its tokens are words of the language, names that the
configuration checked, aliases of joins and placeholders (`says_of_mem_tokens`), so there is nothing in
it that opens a quotation or a comment (`not_mem_fences`). Rules that are the same without their values
have the same text (`statements_of_erased_eq`). -/

namespace Helpdesk

namespace Sql

/-- Characters that open or close a quotation or a comment, or end a statement. -/
def fences : List Char := "'\"[];-/#\\\x60".toList

def isOpenChar (c : Char) : Bool := c.isAlphanum || "_?.,()<>=* ".toList.contains c

theorem isOpenChar_of_isDigit {c : Char} (h : Text.Decimal.isDigit c) : isOpenChar c := by
  simp only [Text.Decimal.isDigit] at h
  simp [isOpenChar, Char.isAlphanum, h]

theorem isOpenChar_of_mem_words {w : String} (h : w ∈ words) : w.toList.all isOpenChar := by
  revert w
  decide

theorem isOpenChar_of_isIdentifier {w : String} (h : isIdentifier w) : w.toList.all isOpenChar := by
  unfold isIdentifier at h
  split at h
  · cases h
  next c cs chars =>
    rw [Bool.and_eq_true] at h
    rw [chars]
    refine List.all_eq_true.2 fun d hd => ?_
    have plain := List.all_eq_true.1 h.2 d hd
    rw [Bool.or_eq_true, beq_iff_eq] at plain
    rcases plain with letter | rfl
    · simp [isOpenChar, letter]
    · decide

end Sql

/-- What the text of a rule is made of under a configuration. -/
inductive Config.Says (c : Config) : String → Prop
  | word {w : String} (h : w ∈ Sql.words) : Says c w
  | name {w : String} (h : c.Names w) : Says c w
  | join (n : Nat) : Says c (Builder.numberedName "j" n)
  | place (n : Nat) : Says c (Clause.placeText n)

theorem Config.isOpenChar_of_said {given c : Config} (valid : given.validate = .ok c) {w : String}
    (h : c.Says w) : w.toList.all Sql.isOpenChar := by
  cases h with
  | word known => exact Sql.isOpenChar_of_mem_words known
  | name known => exact Sql.isOpenChar_of_isIdentifier (isIdentifier_of_names valid known)
  | join n => exact Sql.isOpenChar_of_isIdentifier (Builder.isIdentifier_numberedName n)
  | place n =>
    have chars : (Clause.placeText n).toList = '?' :: Text.Decimal.ofNat n := by
      simp [Clause.placeText]
    rw [chars, List.all_cons, Bool.and_eq_true]
    refine ⟨by decide, List.all_eq_true.2 fun d hd => ?_⟩
    exact Sql.isOpenChar_of_isDigit (Text.Decimal.isDigit_of_mem_ofNat hd)

theorem Config.not_mem_fences {given c : Config} (valid : given.validate = .ok c) {text : String}
    (h : ∀ w ∈ Sql.tokens text, c.Says w) : ∀ ch ∈ text.toList, ch ∉ Sql.fences := by
  intro ch hc
  have open_ : Sql.isOpenChar ch := by
    rcases Sql.mem_tokens_of_mem hc with rfl | ⟨w, hw, inside⟩
    · decide
    · exact List.all_eq_true.1 (isOpenChar_of_said valid (h w hw)) ch inside
  intro fence
  have closed : Sql.fences.all fun ch => !Sql.isOpenChar ch := by decide
  have notOpen := List.all_eq_true.1 closed ch fence
  rw [open_] at notOpen
  cases notOpen

namespace Plan.Writes
variable {p : Plan} {q : Query} {config : Config}

theorem says_column (h : p.Writes q) {site : Site} {column : Column} (named : site.IsNamed config)
    (located : site.column? q.joins = some column) :
    config.Says column.qualifier ∧ config.Names column.field := by
  cases site with
  | own field =>
    cases located
    have alias_ : config.Says targetAlias := .word (by decide)
    exact ⟨alias_, named⟩
  | joined field a =>
    obtain ⟨j, found, rfl⟩ := Option.map_eq_some_iff.1 located
    obtain ⟨n, name⟩ := h.name_of_mem_joins (List.mem_of_find?_eq_some found)
    dsimp only
    rw [name]
    exact ⟨.join n, named.2.2.2⟩

theorem names_join (h : p.Writes q) (named : ∀ t ∈ p.tests, t.IsNamed config) {j : Join}
    (hj : j ∈ q.joins) : (∃ n, j.name = Builder.numberedName "j" n) ∧ config.Names j.table ∧
      config.Names j.key ∧ j.source.qualifier = targetAlias ∧ config.Names j.source.field := by
  obtain ⟨field, a, op, value, ht, serves⟩ := h.joins j hj
  obtain ⟨source, table, key, -⟩ := named _ ht
  simp only [Builder.Join.serves, Bool.and_eq_true, beq_iff_eq] at serves
  obtain ⟨⟨sameSource, sameTable⟩, sameKey⟩ := serves
  rw [sameSource, sameTable, sameKey]
  exact ⟨h.name_of_mem_joins hj, table, key, rfl, source⟩

theorem says_joinTokens (h : p.Writes q) (named : ∀ t ∈ p.tests, t.IsNamed config) {j : Join}
    (hj : j ∈ q.joins) : ∀ w ∈ Sql.joinTokens j, config.Says w := by
  obtain ⟨⟨n, name⟩, table, key, qualifier, source⟩ := h.names_join named hj
  have alias_ : config.Says j.name := name ▸ .join n
  have owner : config.Says j.source.qualifier := qualifier ▸ .word (by decide)
  simp only [Sql.joinTokens, List.forall_mem_cons]
  exact ⟨.word (by decide), .word (by decide), .name table, .word (by decide), alias_,
    .word (by decide), alias_, .word (by decide), .name key, .word (by decide), owner,
    .word (by decide), .name source, fun w hw => absurd hw List.not_mem_nil⟩

end Plan.Writes

theorem Config.says_of_spells {config : Config} {columns : List Column}
    (known : ∀ column ∈ columns, config.Says column.qualifier ∧ config.Names column.field)
    {w : String} (h : Sql.Spells columns w) : config.Says w := by
  cases h with
  | word hw => exact .word hw
  | qualifier hc => exact (known _ hc).1
  | field hc => exact .name (known _ hc).2
  | place n => exact .place n

theorem Test.isNamed_of_mem_sites {config : Config} {t : Test} (h : t.IsNamed config) {site : Site}
    (hs : site ∈ t.sites) : site.IsNamed config := by
  unfold Test.sites at hs
  split at hs
  · exact absurd hs List.not_mem_nil
  · exact List.mem_singleton.1 hs ▸ h
  · exact absurd hs List.not_mem_nil
  · exact List.mem_singleton.1 hs ▸ h

namespace Compiler
variable {given config : Config} {c : Compiler}

theorem says_of_mem_tokens (valid : given.validate = .ok config) (own : c.IsOf config) {g : Group}
    {target : String} {q : Query} (compiled : c.targetQuery g target = .ok q) :
    ∃ st, q.statement = .ok st ∧ ∀ w ∈ Sql.tokens st.toSql, config.Says w := by
  rw [targetQuery_eq] at compiled
  obtain ⟨e, entity, compiled⟩ := bind_eq_ok.1 compiled
  obtain ⟨p, planned, compiled⟩ := bind_eq_ok.1 compiled
  cases compiled
  have fits := plan_fits g planned
  have named := own.isNamed_of_mem_tests planned
  have writes := p.writes_query e.table
  obtain ⟨clause, hc⟩ := p.clause_of_spells fits writes.spells 0
  have columns : ∀ column ∈ clause.columns,
      (config.Says column.qualifier ∧ config.Names column.field) ∧ column.IsPlain := by
    intro column hcol
    have listed := List.mem_map_of_mem (f := some) hcol
    rw [(p.shapes_of_spells writes.spells hc).columns] at listed
    obtain ⟨site, hs, located⟩ := List.mem_map.1 listed
    obtain ⟨t, ht, hs⟩ := List.mem_flatMap.1 hs
    have known := Test.isNamed_of_mem_sites (named t ht) hs
    exact ⟨writes.says_column known located,
      writes.isPlain_column (Site.isPlain_of_isNamed valid known) located⟩
  have table : config.Names (p.query e.table).table := (p.table_query e.table).symm ▸ own.names_table entity
  have joins : ∀ j ∈ (p.query e.table).joins, j.IsPlain := fun j hj =>
    writes.isPlain_join (fun t ht => Test.isPlain_of_isNamed valid (named t ht)) hj
  refine ⟨⟨(p.query e.table).table, (p.query e.table).joins, clause, p.values.flatMap Value.items⟩,
    bind_eq_ok.2 ⟨_, hc, rfl⟩, ?_⟩
  have said : ∀ w ∈ Sql.tokens clause.toSql, config.Says w := fun w hw =>
    Config.says_of_spells (fun column hcol => (columns column hcol).1)
      (Sql.spells_toSql clause (fun column hcol => (columns column hcol).2) w hw)
  have joined : ∀ w ∈ (p.query e.table).joins.flatMap Sql.joinTokens, config.Says w := by
    intro w hw
    obtain ⟨j, hj, hw⟩ := List.mem_flatMap.1 hw
    exact writes.says_joinTokens named hj w hw
  rw [Sql.tokens_toSql (Config.isIdentifier_of_names valid table) joins]
  simp only [List.forall_mem_cons, List.forall_mem_append]
  exact ⟨.word (by decide), .word (by decide), .word (by decide), .word (by decide),
    .word (by decide), .name table, .word (by decide), .word (by decide), joined, .word (by decide),
    said, .word (by decide), .word (by decide), .word (by decide), .word (by decide),
    .word (by decide), fun w hw => absurd hw List.not_mem_nil⟩

/-- Two groups that differ in their values only, list for list as long, and whose thresholds select
equally many priorities: when both compile, their statements differ in their parameters only. Their
text is the same, names nothing but what the configuration names, and has no quotation, no comment and
no second statement in it. -/
theorem statements_of_erased_eq (valid : given.validate = .ok config) (own : c.IsOf config)
    {g g' : Group} {target : String} {q q' : Query} (same : g.erased = g'.erased)
    (compiled : c.targetQuery g target = .ok q) (compiled' : c.targetQuery g' target = .ok q')
    (sizes : ∀ e, c.config.entity target = .ok e →
      c.thresholdSizes (c.target target e) g = c.thresholdSizes (c.target target e) g') :
    ∃ st st', q.statement = .ok st ∧ q'.statement = .ok st' ∧
      st' = { st with parameters := st'.parameters } ∧ st'.toSql = st.toSql ∧
      (∀ w ∈ Sql.tokens st.toSql, w ∈ Sql.words ∨ config.Names w ∧ isIdentifier w ∨
        (∃ n, w = Builder.numberedName "j" n) ∨ ∃ n, w = Clause.placeText n) ∧
      ∀ ch ∈ st.toSql.toList, ch ∉ Sql.fences := by
  obtain ⟨st, hst, said⟩ := says_of_mem_tokens valid own compiled
  obtain ⟨st', hst', -⟩ := says_of_mem_tokens valid own compiled'
  rw [targetQuery_eq] at compiled compiled'
  obtain ⟨e, entity, compiled⟩ := bind_eq_ok.1 compiled
  obtain ⟨e', entity', compiled'⟩ := bind_eq_ok.1 compiled'
  obtain rfl : e = e' := Except.ok.inj (entity.symm.trans entity')
  obtain ⟨p, planned, compiled⟩ := bind_eq_ok.1 compiled
  obtain ⟨p', planned', compiled'⟩ := bind_eq_ok.1 compiled'
  cases compiled
  cases compiled'
  have plans := erased_plan g same (sizes e entity) planned planned'
  have queries : (p.query e.table).erased = (p'.query e.table).erased := by
    rw [← Plan.query_erased, ← Plan.query_erased, plans]
  have differ := Query.statement_of_erased_eq queries hst hst'
  refine ⟨st, st', hst, hst', differ, ?_, fun w hw => ?_, Config.not_mem_fences valid said⟩
  · rw [differ]
    rfl
  · cases said w hw with
    | word known => exact .inl known
    | name known => exact .inr (.inl ⟨known, Config.isIdentifier_of_names valid known⟩)
    | join n => exact .inr (.inr (.inl ⟨n, rfl⟩))
    | place n => exact .inr (.inr (.inr ⟨n, rfl⟩))

def urgentIn (status branch threshold : String) : Group where
  connector := "or"
  conditions := [⟨"status", .binary "in" (.ofTexts [status])⟩,
    ⟨"branch", .binary "like" (.text branch)⟩, ⟨"priority", .binary "gte" (.text threshold)⟩]
  children := []

def evenPriorities : Compiler :=
  { ofConfig .helpdesk .epoch with priorities := .ofEntries [("low", 1), ("normal", 1)] }

theorem entries_evenPriorities : evenPriorities.priorities.entries = [("low", 1), ("normal", 1)] :=
  List.mergeSort_of_pairwise (by decide)

theorem select?_evenPriorities {limit : String} (h : limit ∈ ["low", "normal"]) :
    evenPriorities.priorities.select? limit (fun w limit => decide (limit ≤ w)) =
      some ["low", "normal"] := by
  simp only [List.mem_cons, List.not_mem_nil, or_false] at h
  rcases h with rfl | rfl <;> (rw [PriorityTable.select?, entries_evenPriorities]; rfl)

theorem compiles_urgentIn (status branch threshold : String)
    (h : threshold ∈ ["low", "normal"]) :
    ∃ q, evenPriorities.targetQuery (urgentIn status branch threshold) "ticket" = .ok q := by
  have past : Strategy.pastThreshold "priority" evenPriorities.priorities
      (fun w limit => decide (limit ≤ w)) (.text threshold) = .ok ["low", "normal"] := by
    simp only [Strategy.pastThreshold, Value.text?, select?_evenPriorities h]
  have tested : Strategy.test .weightedRange "priority" .gte (.text threshold)
      evenPriorities.priorities = .ok (.plain "priority" .oneOf (.ofTexts ["low", "normal"])) :=
    map_eq_ok.2 ⟨_, past, rfl⟩
  have terms : ∃ ps, (urgentIn status branch threshold).conditions.mapM
      (evenPriorities.term (evenPriorities.target "ticket" Config.ticketEntity)) = .ok ps :=
    ⟨_, mapM_eq_ok_iff.2 (.cons rfl (.cons rfl
      (.cons (bind_eq_ok.2 ⟨_, rfl, bind_eq_ok.2 ⟨_, tested, rfl⟩⟩) .nil)))⟩
  obtain ⟨ps, terms⟩ := terms
  have planned : evenPriorities.plan (evenPriorities.target "ticket" Config.ticketEntity)
      (urgentIn status branch threshold) = .ok (.group .exclusive ps) :=
    bind_eq_ok.2 ⟨_, rfl, bind_eq_ok.2 ⟨ps, terms, rfl⟩⟩
  exact ⟨_, (targetQuery_eq_ok rfl).2 ⟨_, planned, rfl⟩⟩

theorem thresholdSizes_urgentIn (status branch threshold : String)
    (h : threshold ∈ ["low", "normal"]) :
    evenPriorities.thresholdSizes (evenPriorities.target "ticket" Config.ticketEntity)
      (urgentIn status branch threshold) = [none, none, some 2] := by
  have size : Strategy.weightedRange.thresholdSize? .gte (.text threshold)
      evenPriorities.priorities = some 2 := by
    simp [Strategy.thresholdSize?, Strategy.keep?, Value.text?, select?_evenPriorities h]
  exact congrArg (fun size => [none, none, size]) size

/-- The values of one of the rules try to end the statement and to start another. -/
theorem statements_of_urgentIn : ∃ q q',
    evenPriorities.targetQuery (urgentIn "open" "North" "low") "ticket" = .ok q ∧
    evenPriorities.targetQuery
      (urgentIn "' OR '1' = '1" "x'; DROP TABLE tickets; --" "normal") "ticket" = .ok q' ∧
    ∃ st st', q.statement = .ok st ∧ q'.statement = .ok st' ∧
      st' = { st with parameters := st'.parameters } ∧ st'.toSql = st.toSql ∧
      (∀ w ∈ Sql.tokens st.toSql, w ∈ Sql.words ∨ Config.helpdesk.Names w ∧ isIdentifier w ∨
        (∃ n, w = Builder.numberedName "j" n) ∨ ∃ n, w = Clause.placeText n) ∧
      ∀ ch ∈ st.toSql.toList, ch ∉ Sql.fences := by
  obtain ⟨q, h⟩ := compiles_urgentIn "open" "North" "low" (by decide)
  obtain ⟨q', h'⟩ := compiles_urgentIn "' OR '1' = '1" "x'; DROP TABLE tickets; --"
    "normal" (by decide)
  have valid : Config.helpdesk.validate = .ok .helpdesk := rfl
  have same : (urgentIn "open" "North" "low").erased =
      (urgentIn "' OR '1' = '1" "x'; DROP TABLE tickets; --" "normal").erased := rfl
  refine ⟨q, q', h, h', statements_of_erased_eq valid ⟨rfl, rfl, rfl⟩ same h h' fun e entity => ?_⟩
  cases entity
  have size := thresholdSizes_urgentIn "open" "North" "low" (by decide)
  exact size.trans (thresholdSizes_urgentIn _ _ "normal" (by decide)).symm

end Compiler
end Helpdesk
