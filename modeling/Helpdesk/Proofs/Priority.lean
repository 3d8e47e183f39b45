import Helpdesk.Proofs.Dict
import Helpdesk.Priority

/-! Tables of priorities are canonical. However entries are repeated and ordered, a table lists each
priority once, with the weight that was given last, from the lowest weight to the highest
(`isListing_entries`). So lists with the same final weights make the same table, and a threshold cuts the
list of the priorities in two (`ofEntries_canonical`). -/

namespace Helpdesk

theorem filter_append_filter_not {α : Type} {p : α → Bool} {l : List α}
    (lost : l.Pairwise fun a b => p b → p a) : l.filter p ++ l.filter (fun a => !p a) = l := by
  induction l with
  | nil => rfl
  | cons a l ih =>
    obtain ⟨first, lost⟩ := List.pairwise_cons.1 lost
    by_cases here : p a
    · rw [List.filter_cons_of_pos here, List.filter_cons_of_neg (by simp [here]), List.cons_append,
        ih lost]
    · have gone : ∀ b ∈ l, ¬ p b := fun b hb there => here (first b hb there)
      have none : l.filter p = [] := List.filter_eq_nil_iff.2 gone
      have all : l.filter (fun b => !p b) = l :=
        List.filter_eq_self.2 fun b hb => by simpa using gone b hb
      rw [List.filter_cons_of_neg here, List.filter_cons_of_pos (by simp [here]), none, all,
        List.nil_append]

namespace PriorityTable

def lastWeight? (entries : List (String × Int64)) (priority : String) : Option Int64 :=
  entries.reverse.lookup priority

def Before (a b : String × Int64) : Prop := a.2 < b.2 ∨ a.2 = b.2 ∧ a.1 < b.1

/-- A list of priorities with their final weights, each once and all in order. -/
structure IsListing (entries listed : List (String × Int64)) : Prop where
  once : (listed.map Prod.fst).Nodup
  final : ∀ priority weight,
    (priority, weight) ∈ listed ↔ lastWeight? entries priority = some weight
  ordered : listed.Pairwise Before

def toMap (t : PriorityTable) : Dict Int64 := Dict.ofList t.entries

def ofMap (weights : Dict Int64) : PriorityTable := ofEntries weights.entries

def CutBy (t : PriorityTable) (threshold : String) (low high : Int64 → Int64 → Bool) : Prop :=
  ∃ below above, t.select? threshold low = some below ∧ t.select? threshold high = some above ∧
    t.values = below ++ above

theorem notAfter_iff {a b : String × Int64} :
    notAfter a b ↔ a.2 < b.2 ∨ a.2 = b.2 ∧ a.1 ≤ b.1 := by
  simp [notAfter]

theorem notAfter_trans (a b c : String × Int64) (first : notAfter a b) (second : notAfter b c) :
    notAfter a c := by
  rw [notAfter_iff] at *
  rcases first with less | ⟨same, names⟩
  · rcases second with more | ⟨same, -⟩
    · exact .inl (Int64.lt_trans less more)
    · exact .inl (same ▸ less)
  · rcases second with more | ⟨same', names'⟩
    · exact .inl (same ▸ more)
    · exact .inr ⟨same.trans same', String.le_trans names names'⟩

theorem notAfter_total (a b : String × Int64) : notAfter a b || notAfter b a := by
  rw [Bool.or_eq_true, notAfter_iff, notAfter_iff]
  rcases Int64.le_total a.2 b.2 with le | le
  · rcases Int64.lt_or_eq_of_le le with less | same
    · exact .inl (.inl less)
    · exact (String.le_total a.1 b.1).imp (.inr ⟨same, ·⟩) (.inr ⟨same.symm, ·⟩)
  · rcases Int64.lt_or_eq_of_le le with less | same
    · exact .inr (.inl less)
    · exact (String.le_total a.1 b.1).imp (.inr ⟨same.symm, ·⟩) (.inr ⟨same, ·⟩)

section Entries
variable (t : PriorityTable)

theorem nodup_entries : (t.entries.map Prod.fst).Nodup :=
  ((List.mergeSort_perm _ _).map Prod.fst).nodup_iff.2 t.weights.nodup_keys

theorem ordered_entries : t.entries.Pairwise Before := by
  have sorted : t.entries.Pairwise fun a b => notAfter a b :=
    List.pairwise_mergeSort notAfter_trans notAfter_total _
  refine sorted.imp₂ (fun a b order apart => ?_) (List.pairwise_map.1 t.nodup_entries)
  refine (notAfter_iff.1 order).imp id fun ⟨same, names⟩ => ⟨same, ?_⟩
  exact lt_of_not_lt_of_ne (String.not_lt.2 names) fun equal => apart equal.symm

theorem mem_values_iff {priority : String} : priority ∈ t.values ↔ (t.weight? priority).isSome := by
  simp only [values, List.mem_map, mem_entries, weight?, Option.isSome_iff_exists,
    Dict.get?_eq_some_iff]
  constructor
  · rintro ⟨⟨_, weight⟩, entry, rfl⟩
    exact ⟨weight, entry⟩
  · rintro ⟨weight, entry⟩
    exact ⟨(priority, weight), entry, rfl⟩

theorem toMap_eq : t.toMap = t.weights := by
  refine Dict.ext_get? fun priority => Option.ext fun weight => ?_
  have nodup : (t.entries.reverse.map Prod.fst).Nodup := by
    rw [List.map_reverse]
    exact List.nodup_reverse.2 t.nodup_entries
  rw [toMap, Dict.get?_ofList, lookup_eq_some_iff_mem nodup, List.mem_reverse, mem_entries,
    Dict.get?_eq_some_iff]

theorem ofMap_eq (weights : Dict Int64) : ofMap weights = ⟨weights⟩ :=
  congrArg mk weights.ofList_entries

theorem ofMap_toMap : ofMap t.toMap = t := by
  rw [ofMap_eq, toMap_eq]

theorem cutBy_of_lost {threshold : String} {low high : Int64 → Int64 → Bool}
    (known : threshold ∈ t.values) (opposite : ∀ w limit, high w limit = !low w limit)
    (lost : ∀ w w' limit, w ≤ w' → low w' limit → low w limit) : t.CutBy threshold low high := by
  obtain ⟨limit, weight⟩ := Option.isSome_iff_exists.1 (t.mem_values_iff.1 known)
  have parts : t.entries.filter (low ·.2 limit) ++ t.entries.filter (high ·.2 limit) = t.entries := by
    simp only [opposite]
    refine filter_append_filter_not (t.ordered_entries.imp fun {a b} before => ?_)
    refine lost a.2 b.2 limit ?_
    rcases before with less | ⟨same, -⟩
    · exact Int64.le_of_lt less
    · exact same ▸ Int64.le_refl _
  have selected (keep : Int64 → Int64 → Bool) : t.select? threshold keep =
      some ((t.entries.filter (keep ·.2 limit)).map Prod.fst) := by
    rw [select?, weight, Option.map_some]
  exact ⟨_, _, selected low, selected high, by rw [← List.map_append, parts, values]⟩

end Entries

theorem isListing_entries (entries : List (String × Int64)) :
    IsListing entries (ofEntries entries).entries where
  once := nodup_entries _
  final priority weight := by
    rw [mem_entries, ← Dict.get?_eq_some_iff, ofEntries, Dict.get?_ofList, lastWeight?]
  ordered := ordered_entries _

theorem ofEntries_eq_iff {entries others : List (String × Int64)} :
    ofEntries entries = ofEntries others ↔
      ∀ priority, lastWeight? entries priority = lastWeight? others priority := by
  simp only [lastWeight?, ← Dict.get?_ofList]
  constructor
  · intro same priority
    exact congrArg (Dict.get? · priority) (congrArg weights same)
  · intro same
    exact congrArg mk (Dict.ext_get? same)

/-- A table lists each priority once, with its final weight and by weight and name, so it depends on
nothing but the final weights; as a map it loses nothing. A threshold that it knows cuts its priorities
in two, be it counted to the lower or to the upper ones, and any other selects nothing. -/
theorem ofEntries_canonical (entries : List (String × Int64)) :
    IsListing entries (ofEntries entries).entries ∧
    (∀ others, ofEntries entries = ofEntries others ↔
      ∀ priority, lastWeight? entries priority = lastWeight? others priority) ∧
    ofMap (ofEntries entries).toMap = ofEntries entries ∧
    (∀ threshold ∈ (ofEntries entries).values,
      (ofEntries entries).CutBy threshold (fun w limit => w < limit) (fun w limit => w ≥ limit) ∧
      (ofEntries entries).CutBy threshold (fun w limit => w ≤ limit) (fun w limit => w > limit)) ∧
    ∀ threshold, threshold ∉ (ofEntries entries).values →
      ∀ keep, (ofEntries entries).select? threshold keep = none := by
  refine ⟨isListing_entries entries, fun _ => ofEntries_eq_iff, ofMap_toMap _,
    fun threshold known => ⟨?_, ?_⟩, fun threshold unknown keep => ?_⟩
  · refine cutBy_of_lost _ known (fun w limit => ?_) fun w w' limit le less => ?_
    · rw [← decide_not]
      exact decide_eq_decide.2 Int64.not_lt.symm
    · exact decide_eq_true (Int64.lt_of_le_of_lt le (of_decide_eq_true less))
  · refine cutBy_of_lost _ known (fun w limit => ?_) fun w w' limit le upTo => ?_
    · rw [← decide_not]
      exact decide_eq_decide.2 Int64.not_le.symm
    · exact decide_eq_true (Int64.le_trans le (of_decide_eq_true upTo))
  · have missing : (ofEntries entries).weight? threshold = none := by
      simpa [mem_values_iff] using unknown
    rw [select?, missing, Option.map_none]

end PriorityTable

namespace EvenWeights

def entries : List (String × Int64) := [("urgent", 3), ("backlog", -5), ("high", 0), ("high", 3)]

def table : PriorityTable := .ofEntries entries

/-- Two priorities of equal weight are on one side of a threshold together. -/
theorem cutBy_urgent : table.entries = [("backlog", -5), ("high", 3), ("urgent", 3)] ∧
    table.CutBy "urgent" (fun w limit => w < limit) (fun w limit => w ≥ limit) ∧
    table.CutBy "urgent" (fun w limit => w ≤ limit) (fun w limit => w > limit) ∧
    table.select? "medium" (fun w limit => w ≤ limit) = none := by
  have listed : table.entries = [("backlog", -5), ("high", 3), ("urgent", 3)] :=
    List.mergeSort_of_pairwise (by decide)
  have values : table.values = ["backlog", "high", "urgent"] := by
    rw [PriorityTable.values, listed]
    rfl
  have known : "urgent" ∈ table.values := by
    rw [values]
    decide
  have unknown : "medium" ∉ table.values := by
    rw [values]
    decide
  obtain ⟨-, -, -, cut, none⟩ := PriorityTable.ofEntries_canonical entries
  obtain ⟨below, upTo⟩ := cut "urgent" known
  exact ⟨listed, below, upTo, none "medium" unknown _⟩

end EvenWeights
end Helpdesk
