import Helpdesk.Text.Pattern
import Mathlib.Data.List.Infix
import Mathlib.Data.List.TakeWhile

/-! What search patterns describe. A matcher that tries every tail of a text finds exactly the texts that a
pattern describes (`matchesChars_iff`). A pattern with any text before and behind describes the texts that
contain what stands between (`describes_between_iff`), as long as nothing there has a meaning of its
own. -/

namespace Helpdesk.Text.Pattern

def IsWild (c : Char) : Prop := c = '%' ∨ c = '_'

instance : DecidablePred IsWild := fun c => inferInstanceAs (Decidable (c = '%' ∨ c = '_'))

inductive Describes : List Char → List Char → Prop
  | nil : Describes [] []
  | stop {ps cs : List Char} : Describes ps cs → Describes ('%' :: ps) cs
  | skip (c : Char) {ps cs : List Char} : Describes ('%' :: ps) cs → Describes ('%' :: ps) (c :: cs)
  | one (c : Char) {ps cs : List Char} : Describes ps cs → Describes ('_' :: ps) (c :: cs)
  | letter {p c : Char} {ps cs : List Char} : ¬ IsWild p → foldAscii p = foldAscii c →
      Describes ps cs → Describes (p :: ps) (c :: cs)

theorem anyTail_iff {rest : List Char → Bool} {cs : List Char} :
    anyTail rest cs ↔ ∃ skipped tail, cs = skipped ++ tail ∧ rest tail := by
  induction cs with
  | nil => simp [anyTail]
  | cons c cs ih =>
    rw [anyTail, Bool.or_eq_true, ih]
    constructor
    · rintro (here | ⟨skipped, tail, rfl, later⟩)
      · exact ⟨[], c :: cs, rfl, here⟩
      · exact ⟨c :: skipped, tail, rfl, later⟩
    · rintro ⟨skipped, tail, split, found⟩
      cases skipped with
      | nil => exact .inl (split ▸ found)
      | cons s skipped =>
        cases split
        exact .inr ⟨skipped, tail, rfl, found⟩

section Describes
variable {ps qs cs : List Char}

theorem describes_percent_iff :
    Describes ('%' :: ps) cs ↔ ∃ skipped tail, cs = skipped ++ tail ∧ Describes ps tail := by
  constructor
  · intro h
    induction cs with
    | nil =>
      cases h with
      | stop h => exact ⟨[], [], rfl, h⟩
    | cons c cs ih =>
      cases h with
      | stop h => exact ⟨[], c :: cs, rfl, h⟩
      | skip _ h =>
        obtain ⟨skipped, tail, rfl, rest⟩ := ih h
        exact ⟨c :: skipped, tail, rfl, rest⟩
      | letter plain => exact absurd (.inl rfl) plain
  · rintro ⟨skipped, tail, rfl, h⟩
    induction skipped with
    | nil => exact .stop h
    | cons c skipped ih => exact .skip c ih

theorem matchesChars_iff : matchesChars ps cs ↔ Describes ps cs := by
  induction ps generalizing cs with
  | nil =>
    rw [matchesChars, List.isEmpty_iff]
    constructor
    · rintro rfl
      exact .nil
    · intro h
      cases h
      rfl
  | cons p ps ih =>
    by_cases any : p = '%'
    · subst any
      simp only [matchesChars_percent, anyTail_iff, ih, describes_percent_iff]
    · cases cs with
      | nil =>
        simp only [matchesChars, any, if_false, Bool.false_eq_true, false_iff]
        intro h
        cases h with
        | stop => exact any rfl
      | cons c cs =>
        simp only [matchesChars, any, if_false, Bool.and_eq_true, Bool.or_eq_true,
          decide_eq_true_eq, sameLetter, beq_iff_eq, ih]
        constructor
        · rintro ⟨rfl | same, h⟩
          · exact .one c h
          · by_cases one : p = '_'
            · subst one
              exact .one c h
            · exact .letter (not_or.2 ⟨any, one⟩) same h
        · intro h
          cases h with
          | stop | skip => exact absurd rfl any
          | one _ h => exact ⟨.inl rfl, h⟩
          | letter _ same h => exact ⟨.inr same, h⟩

theorem describes_plain_append_iff (plain : ∀ p ∈ ps, ¬ IsWild p) :
    Describes (ps ++ qs) cs ↔
      ∃ found rest, cs = found ++ rest ∧ ps.map foldAscii = found.map foldAscii ∧
        Describes qs rest := by
  induction ps generalizing cs with
  | nil =>
    constructor
    · exact fun h => ⟨[], cs, rfl, rfl, h⟩
    · rintro ⟨found, rest, rfl, same, h⟩
      rwa [List.map_eq_nil_iff.1 same.symm]
  | cons p ps ih =>
    obtain ⟨first, others⟩ := List.forall_mem_cons.1 plain
    constructor
    · intro h
      rw [List.cons_append] at h
      cases h with
      | stop | skip => exact absurd (.inl rfl) first
      | one => exact absurd (.inr rfl) first
      | letter _ same h =>
        obtain ⟨found, rest, rfl, sames, behind⟩ := (ih others).1 h
        exact ⟨_ :: found, rest, rfl, by rw [List.map_cons, List.map_cons, same, sames], behind⟩
    · rintro ⟨found, rest, rfl, same, behind⟩
      obtain ⟨c, found, rfl, letter, sames⟩ := List.map_eq_cons_iff.1 same.symm
      exact .letter first letter.symm ((ih others).2 ⟨found, rest, rfl, sames.symm, behind⟩)

theorem describes_between_iff (plain : ∀ p ∈ ps, ¬ IsWild p) :
    Describes ('%' :: (ps ++ ['%'])) cs ↔ ps.map foldAscii <:+: cs.map foldAscii := by
  rw [describes_percent_iff]
  constructor
  · rintro ⟨before, tail, rfl, h⟩
    obtain ⟨found, behind, rfl, same, -⟩ := (describes_plain_append_iff plain).1 h
    refine ⟨before.map foldAscii, behind.map foldAscii, ?_⟩
    rw [same, List.map_append, List.map_append, List.append_assoc]
  · rintro ⟨before, behind, whole⟩
    obtain ⟨front, behind, rfl, split, -⟩ := List.map_eq_append_iff.1 whole.symm
    obtain ⟨before, found, rfl, -, same⟩ := List.map_eq_append_iff.1 split
    refine ⟨before, found ++ behind, List.append_assoc .., ?_⟩
    refine (describes_plain_append_iff plain).2 ⟨found, behind, rfl, same.symm, ?_⟩
    exact describes_percent_iff.2 ⟨behind, [], (List.append_nil behind).symm, .nil⟩

theorem describes_map {f : Char → Char} (kept : ∀ c, ¬ IsWild c → f c = c)
    (h : Describes qs cs) (ps : List Char) : Describes (ps ++ qs) (ps.map f ++ cs) := by
  induction ps with
  | nil => exact h
  | cons p ps ih =>
    by_cases any : p = '%'
    · subst any
      exact .skip _ (.stop ih)
    · by_cases one : p = '_'
      · subst one
        exact .one _ ih
      · have plain : ¬ IsWild p := not_or.2 ⟨any, one⟩
        exact .letter plain (by rw [kept p plain]) ih

end Describes

/-- The texts that a pattern describes in the database, where a text ends at its first `NUL`. -/
def DescribesText (pattern text : String) : Prop := Describes (upToNul pattern) (upToNul text)

theorem matchesText_iff {pattern text : String} :
    matchesText pattern text ↔ DescribesText pattern text := matchesChars_iff

instance (pattern text : String) : Decidable (DescribesText pattern text) :=
  decidable_of_iff _ matchesText_iff

def Contains (text term : String) : Prop :=
  term.toList.map foldAscii <:+: text.toList.map foldAscii

instance (text term : String) : Decidable (Contains text term) :=
  inferInstanceAs (Decidable (term.toList.map foldAscii <:+: text.toList.map foldAscii))

def IsPlain (term : String) : Prop := ∀ c ∈ term.toList, ¬ IsWild c ∧ c ≠ '\x00'

instance (term : String) : Decidable (IsPlain term) :=
  inferInstanceAs (Decidable (∀ c ∈ term.toList, ¬ IsWild c ∧ c ≠ '\x00'))

theorem upToNul_eq_self {s : String} (h : '\x00' ∉ s.toList) : upToNul s = s.toList := by
  rw [upToNul, List.takeWhile_eq_self_iff]
  intro c hc
  exact decide_eq_true fun nul => h (nul ▸ hc)

/-- A term between two signs for any text. The second sign is lost where the term ends early. -/
theorem upToNul_between (term : String) : ∃ rest, Describes rest [] ∧
    ('\x00' ∉ term.toList → rest = ['%']) ∧
    upToNul ("%" ++ term ++ "%") = '%' :: (upToNul term ++ rest) := by
  have front : upToNul ("%" ++ term ++ "%") =
      '%' :: (term.toList ++ ['%']).takeWhile (· ≠ '\x00') := by
    rw [upToNul, String.toList_append, String.toList_append]
    rfl
  rw [front, List.takeWhile_append]
  split
  next whole =>
    have same : upToNul term = term.toList :=
      (List.takeWhile_prefix _).eq_of_length whole
    exact ⟨['%'], .stop .nil, fun _ => rfl, by rw [same]; rfl⟩
  next early =>
    refine ⟨[], .nil, fun own => ?_, by rw [List.append_nil]; rfl⟩
    exact absurd (congrArg List.length (upToNul_eq_self own)) early

theorem eq_of_foldAscii {c d : Char} (h : foldAscii c = d) (low : d.toNat < 97) : c = d := by
  unfold foldAscii at h
  split at h
  next upper =>
    have bounds : 65 ≤ c.toNat ∧ c.toNat ≤ 90 := upper
    have valid : (c.toNat + 32).isValidChar := .inl (by omega)
    have lower : (Char.ofNat (c.toNat + 32)).toNat = c.toNat + 32 := by
      rw [Char.ofNat, dif_pos valid]
      rfl
    rw [h] at lower
    omega
  next => exact h

theorem describesText_between_iff {text term : String} (plain : IsPlain term)
    (whole : '\x00' ∉ text.toList) : DescribesText ("%" ++ term ++ "%") text ↔ Contains text term := by
  obtain ⟨rest, -, known, between⟩ := upToNul_between term
  have own : '\x00' ∉ term.toList := fun nul => (plain _ nul).2 rfl
  rw [DescribesText, between, known own, upToNul_eq_self own, upToNul_eq_self whole]
  exact describes_between_iff fun p hp => (plain p hp).1

def tame (c : Char) : Char := if IsWild c then 'x' else c

/-- A text like a term, up to where the term ends, with an `x` for every wild character. -/
def tamed (term : String) : String := String.ofList ((upToNul term).map tame)

theorem tamed_isPlain (term : String) : IsPlain (tamed term) := by
  rw [IsPlain, tamed, String.toList_ofList, List.forall_mem_map]
  intro c hc
  rw [upToNul] at hc
  have early := List.mem_takeWhile_imp hc
  rw [decide_eq_true_eq] at early
  rw [tame]
  split
  next => decide
  next plain => exact ⟨plain, early⟩

theorem not_mem_tamed (term : String) : '\x00' ∉ (tamed term).toList :=
  fun nul => (tamed_isPlain term _ nul).2 rfl

theorem describesText_tamed (term : String) : DescribesText ("%" ++ term ++ "%") (tamed term) := by
  obtain ⟨rest, behind, -, between⟩ := upToNul_between term
  have described := describes_map (f := tame) (fun c plain => if_neg plain) behind (upToNul term)
  rw [List.append_nil] at described
  rw [DescribesText, between, upToNul_eq_self (not_mem_tamed term), tamed, String.toList_ofList]
  exact .stop described

/-- No letter folds to a character with a meaning of its own. -/
theorem isPlain_of_contains {text term : String} (plain : IsPlain text) (h : Contains text term) :
    IsPlain term := by
  intro c hc
  have member : foldAscii c ∈ text.toList.map foldAscii := h.subset (List.mem_map_of_mem hc)
  obtain ⟨d, hd, same⟩ := List.mem_map.1 member
  have other (e : Char) (own : foldAscii e = e) (low : e.toNat < 97)
      (special : IsWild e ∨ e = '\x00') : c ≠ e := by
    rintro rfl
    obtain rfl := eq_of_foldAscii (same.trans own) low
    exact special.elim (plain d hd).1 (plain d hd).2
  exact ⟨not_or.2 ⟨other '%' (by decide) (by decide) (by decide),
    other '_' (by decide) (by decide) (by decide)⟩, other '\x00' (by decide) (by decide) (by decide)⟩

theorem exists_describesText_of_not_plain {term : String} (h : ¬ IsPlain term) :
    ∃ text : String, '\x00' ∉ text.toList ∧ DescribesText ("%" ++ term ++ "%") text ∧
      ¬ Contains text term :=
  ⟨tamed term, not_mem_tamed term, describesText_tamed term,
    mt (isPlain_of_contains (tamed_isPlain term)) h⟩

end Helpdesk.Text.Pattern
