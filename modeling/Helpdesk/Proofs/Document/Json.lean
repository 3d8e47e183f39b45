import Helpdesk.Document.JsonSyntax
import Helpdesk.Document.JsonText
import Helpdesk.Proofs.Outcome
import Helpdesk.Proofs.Text.Decimal

/-! JSON texts are read back. A quoted text leads to the text that was quoted
(`quotedText?_quoted`), the digits of a whole number to the number (`scanNumeral?_ofInt`), and so
the compact text of a document without doubles to the document (`ofJson?_toJson`), whatever its depth
and its characters. -/

namespace Helpdesk.Document
open Text.Decimal (isDigit)

/-! ## Texts -/

theorem hexNumber?_hexPair :
    ∀ n < 0x20, hexNumber? ('0' :: '0' :: hexPair n) = some n := by decide

theorem codeUnits?_cons {c : Char} (quote : c ≠ '"') (slash : c ≠ '\\') (printed : ¬ c.toNat < 0x20)
    (cs : List Char) :
    codeUnits? (c :: cs) = (codeUnits? cs).map fun (ns, cs) => (c.toNat :: ns, cs) := by
  have plain : ¬ (c.toNat < 0x20 ∨ c = '\\') := fun h => h.elim printed slash
  rw [codeUnits?]
  · rw [if_neg plain]
    cases codeUnits? cs <;> rfl
  · exact quote
  · exact fun _ _ _ _ _ same _ => slash same
  · exact fun _ _ same _ => slash same

theorem codeUnits?_escapeChar (c : Char) (cs : List Char) :
    codeUnits? (escapeChar c ++ cs) =
      (codeUnits? cs).map fun (ns, cs) => (c.toNat :: ns, cs) := by
  have short (e : Char) (n : Nat) (known : escaped? e = some n) (other : e ≠ 'u') :
      codeUnits? ('\\' :: e :: cs) = (codeUnits? cs).map fun (ns, cs) => (n :: ns, cs) := by
    rw [codeUnits?, known]
    · cases codeUnits? cs <;> rfl
    · exact fun _ _ _ _ _ same _ => other same
  rw [escapeChar]
  split
  next same => subst same; exact short '"' _ rfl (by decide)
  split
  next same => subst same; exact short '\\' _ rfl (by decide)
  split
  next same => subst same; exact short 'b' _ rfl (by decide)
  split
  next same => subst same; exact short 't' _ rfl (by decide)
  split
  next same => subst same; exact short 'n' _ rfl (by decide)
  split
  next same => subst same; exact short 'f' _ rfl (by decide)
  split
  next same => subst same; exact short 'r' _ rfl (by decide)
  split
  next control =>
    have number := hexNumber?_hexPair c.toNat control
    rw [hexPair] at number ⊢
    simp only [List.cons_append, List.nil_append, codeUnits?, number]
    cases codeUnits? cs <;> rfl
  next quote slash _ _ _ _ _ printed => exact codeUnits?_cons quote slash printed cs

theorem codeUnits?_quoted (cs rest : List Char) :
    codeUnits? (cs.flatMap escapeChar ++ '"' :: rest) = some (cs.map Char.toNat, rest) := by
  induction cs with
  | nil => rfl
  | cons c cs ih =>
    rw [List.flatMap_cons, List.append_assoc, codeUnits?_escapeChar, ih]
    rfl

theorem not_surrogate (c : Char) :
    isHighSurrogate c.toNat = false ∧ isLowSurrogate c.toNat = false := by
  have valid : c.toNat < 0xD800 ∨ 0xDFFF < c.toNat ∧ c.toNat < 0x110000 := c.valid
  simp only [isHighSurrogate, isLowSurrogate, Bool.and_eq_false_iff, decide_eq_false_iff_not]
  omega

theorem characters?_toNat (cs : List Char) : characters? (cs.map Char.toNat) = some cs := by
  induction cs with
  | nil => rfl
  | cons c cs ih =>
    obtain ⟨high, low⟩ := not_surrogate c
    cases cs with
    | nil => simp [characters?, high, low, Char.ofNat_toNat]
    | cons d cs =>
      rw [List.map_cons, List.map_cons, characters?, high, low]
      rw [List.map_cons] at ih
      simp [ih, Char.ofNat_toNat]

theorem quotedText?_quoted (s : String) (rest : List Char) :
    quotedText? (s.toList.flatMap escapeChar ++ '"' :: rest) = some (some s, rest) := by
  simp only [quotedText?, codeUnits?_quoted, Option.map_some, characters?_toNat,
    String.ofList_toList]

/-! ## Numbers -/

def Ends (rest : List Char) : Prop :=
  ∀ c ∈ rest.head?, c = ',' ∨ c = ']' ∨ c = '\x7d'

theorem takeWhile_digits {digits rest : List Char} (all : ∀ c ∈ digits, isDigit c)
    (ends : Ends rest) :
    (digits ++ rest).takeWhile isDigit = digits ∧ (digits ++ rest).dropWhile isDigit = rest := by
  have stops : rest.takeWhile isDigit = [] ∧ rest.dropWhile isDigit = rest := by
    cases rest with
    | nil => exact ⟨rfl, rfl⟩
    | cons c cs =>
      have digit : isDigit c = false := by
        rcases ends c rfl with rfl | rfl | rfl <;> rfl
      simp [digit]
  rw [List.takeWhile_append_of_pos all, List.dropWhile_append_of_pos all, stops.1, stops.2,
    List.append_nil]
  exact ⟨rfl, rfl⟩

theorem wholePart?_ofNat (n : Nat) {rest : List Char} (ends : Ends rest) :
    wholePart? (Text.Decimal.ofNat n ++ rest) = some (Text.Decimal.ofNat n, rest) := by
  obtain ⟨taken, left⟩ :=
    takeWhile_digits (fun _ h => Text.Decimal.isDigit_of_mem_ofNat (n := n) h) ends
  have written : Text.Decimal.ofNat n = ['0'] ∨ (Text.Decimal.ofNat n).head? ≠ some '0' := by
    by_cases zero : n = 0
    · exact .inl (by rw [zero]; rfl)
    · exact .inr (Text.Decimal.head_ofNat zero)
  rw [wholePart?, taken, left]
  split
  next none => exact absurd none (Text.Decimal.ofNat_ne_nil n)
  next led =>
    rw [led] at written
    rcases written with one | head
    · cases one
    · exact absurd rfl head
  next => rfl

theorem fractionPart?_of_ends {rest : List Char} (ends : Ends rest) :
    fractionPart? rest = some (none, rest) := by
  unfold fractionPart?
  split
  next => rcases ends _ rfl with same | same | same <;> cases same
  next => rfl

theorem exponentPart?_of_ends {rest : List Char} (ends : Ends rest) :
    exponentPart? rest = some (none, rest) := by
  cases rest with
  | nil => rfl
  | cons c cs => rcases ends c rfl with rfl | rfl | rfl <;> rfl

theorem scanNumeral?_ofInt (i : Int) {rest : List Char} (ends : Ends rest) :
    scanNumeral? (Text.Decimal.ofInt i ++ rest) =
      some (⟨decide (i < 0), Text.Decimal.ofNat i.natAbs, none, none⟩, rest) := by
  have parts := wholePart?_ofNat i.natAbs ends
  rw [Text.Decimal.ofInt]
  split
  next negative =>
    simp [scanNumeral?, parts, fractionPart?_of_ends ends, exponentPart?_of_ends ends, negative]
  next notNegative =>
    obtain ⟨c, cs, chars, digit⟩ := Text.Decimal.ofNat_eq_cons i.natAbs
    rw [chars, List.cons_append] at parts ⊢
    have sign : c ≠ '-' := by rintro rfl; exact absurd digit (by decide)
    simp only [scanNumeral?]
    split
    next same => exact absurd (List.cons.inj same).1 sign
    next => simp [parts, fractionPart?_of_ends ends, exponentPart?_of_ends ends, notNegative]

theorem inWholeRange_iff {i : Int} :
    inWholeRange i ↔ -9223372036854775808 ≤ i ∧ i < 18446744073709551616 := by
  simp only [inWholeRange, Bool.and_eq_true, decide_eq_true_eq]
  rfl

theorem document_of_inWholeRange {i : Int} (h : inWholeRange i) :
    JsonNumeral.document ⟨decide (i < 0), Text.Decimal.ofNat i.natAbs, none, none⟩ = .int i := by
  have bounds := inWholeRange_iff.1 h
  have small : i.natAbs < Bits64.limit := by rw [Bits64.limit]; omega
  simp only [JsonNumeral.document, Text.Decimal.value_ofNat, Option.isNone_none, true_and, small,
    if_true]
  by_cases negative : i < 0
  · have size : (i.natAbs : Int) ≤ Bits64.signedLimit := by rw [Bits64.signedLimit]; omega
    have zero : i.natAbs ≠ 0 := by omega
    have back : -(i.natAbs : Int) = i := by omega
    rw [if_pos (decide_eq_true negative), if_neg zero, if_pos size, back]
  · have back : (i.natAbs : Int) = i := by omega
    rw [if_neg (by simpa using negative), back]

/-! ## Documents -/

mutual
/-- Whether a document has neither doubles nor parts without a value, and only whole numbers that
documents can hold. -/
def isExact : Document → Bool
  | .int i => inWholeRange i
  | .real _ => false
  | .unreadable => false
  | .list items => areExact items
  | .table members => membersExact members
  | _ => true

def areExact : List Document → Bool
  | [] => true
  | d :: ds => isExact d && areExact ds

def membersExact : List (String × Document) → Bool
  | [] => true
  | (_, d) :: ms => isExact d && membersExact ms
end

theorem areExact_iff {ds : List Document} : areExact ds ↔ ∀ d ∈ ds, d.isExact := by
  induction ds with
  | nil => simp [areExact]
  | cons d ds ih => rw [areExact, Bool.and_eq_true, ih, List.forall_mem_cons]

theorem membersExact_iff {ms : List (String × Document)} :
    membersExact ms ↔ ∀ m ∈ ms, m.2.isExact := by
  induction ms with
  | nil => simp [membersExact]
  | cons m ms ih => rw [membersExact, Bool.and_eq_true, ih, List.forall_mem_cons]

theorem skipBlank_cons {c : Char} (h : isJsonBlank c = false) (cs : List Char) :
    skipBlank (c :: cs) = c :: cs :=
  List.dropWhile_cons_of_neg (by simp [h])

def opensNumber (c : Char) : Bool := c == '-' || isDigit c

theorem ofInt_eq_cons (i : Int) : ∃ c cs, Text.Decimal.ofInt i = c :: cs ∧ opensNumber c := by
  rw [Text.Decimal.ofInt]
  split
  · exact ⟨_, _, rfl, rfl⟩
  · obtain ⟨c, cs, chars, digit⟩ := Text.Decimal.ofNat_eq_cons i.natAbs
    exact ⟨c, cs, chars, by rw [opensNumber, digit, Bool.or_true]⟩

theorem isJsonBlank_of_opensNumber {c : Char} (h : opensNumber c) : isJsonBlank c = false := by
  simp only [isJsonBlank, Bool.or_eq_false_iff, beq_eq_false_iff_ne]
  refine ⟨⟨⟨?_, ?_⟩, ?_⟩, ?_⟩
  all_goals rintro rfl; exact absurd h (by decide)

theorem value?_of_opensNumber (fuel : Nat) {c : Char} (h : opensNumber c) (cs : List Char) :
    value? (fuel + 1) (c :: cs) =
      (scanNumeral? (c :: cs)).map fun (n, cs) => (n.document, cs) := by
  rw [value?, skipBlank_cons (isJsonBlank_of_opensNumber h)]
  split
  iterate 6
    next same => cases same; exact absurd h (by decide)
  next => rfl

theorem compactText_eq_cons {d : Document} (h : d.isExact) :
    ∃ c cs, compactText d = c :: cs ∧ isJsonBlank c = false ∧ c ≠ ']' := by
  cases d with
  | null => exact ⟨_, _, rfl, by decide⟩
  | bool b => cases b <;> exact ⟨_, _, rfl, by decide⟩
  | int i =>
    obtain ⟨c, cs, chars, number⟩ := ofInt_eq_cons i
    refine ⟨c, cs, chars, isJsonBlank_of_opensNumber number, ?_⟩
    rintro rfl
    exact absurd number (by decide)
  | real d => cases h
  | text s => exact ⟨_, _, rfl, by decide⟩
  | list items => exact ⟨_, _, rfl, by decide⟩
  | table members => exact ⟨_, _, rfl, by decide⟩
  | unreadable => cases h

/-! ## Steps of reading -/

section Steps
variable {fuel : Nat} {c : Char} {cs behind rest : List Char} {d : Document} {ds : List Document}

theorem value?_items (blank : isJsonBlank c = false) (closing : c ≠ ']')
    (read : items? fuel (c :: cs) = some (ds, rest)) :
    value? (fuel + 1) ('[' :: c :: cs) = some (.list ds, rest) := by
  rw [value?, skipBlank_cons (by decide)]
  simp only [skipBlank_cons blank]
  split
  next same => exact absurd (List.cons.inj same).1 closing
  next => rw [read, Option.map_some]

theorem items?_last (read : value? fuel cs = some (d, ']' :: rest)) :
    items? (fuel + 1) cs = some ([d], rest) := by
  rw [items?, read]
  rfl

theorem items?_next (read : value? fuel cs = some (d, ',' :: behind))
    (others : items? fuel behind = some (ds, rest)) :
    items? (fuel + 1) cs = some (d :: ds, rest) := by
  rw [items?, read]
  simp only [skipBlank_cons (c := ',') rfl, others, Option.map_some]

def readMembers (members : List (String × Document)) : List (Option String × Document) :=
  members.map fun m => (some m.1, m.2)

theorem tableOf_readMembers (members : List (String × Document)) :
    tableOf (readMembers members) = .table members := by
  have whole : (readMembers members).mapM (fun m => m.1.map fun k => (k, m.2)) = some members :=
    mapM_map_eq_self fun _ _ => rfl
  unfold tableOf
  exact whole ▸ rfl

variable {ms : List (String × Document)}

theorem value?_members (read : members? fuel ('"' :: cs) = some (readMembers ms, rest)) :
    value? (fuel + 1) ('\x7b' :: '"' :: cs) = some (.table ms, rest) := by
  rw [value?, skipBlank_cons (by decide)]
  simp only [skipBlank_cons (c := '"') rfl]
  split
  next same => exact absurd (List.cons.inj same).1 (by decide)
  next => simp only [read, Option.map_some, tableOf_readMembers]

theorem members?_last (k : String) (read : value? fuel cs = some (d, '\x7d' :: rest)) :
    members? (fuel + 1) ('"' :: (k.toList.flatMap escapeChar ++ '"' :: ':' :: cs)) =
      some (readMembers [(k, d)], rest) := by
  rw [members?, skipBlank_cons (by decide)]
  simp only [quotedText?_quoted, skipBlank_cons (c := ':') rfl, read]
  rfl

theorem members?_next (k : String) (read : value? fuel cs = some (d, ',' :: behind))
    (others : members? fuel behind = some (readMembers ms, rest)) :
    members? (fuel + 1) ('"' :: (k.toList.flatMap escapeChar ++ '"' :: ':' :: cs)) =
      some (readMembers ((k, d) :: ms), rest) := by
  rw [members?, skipBlank_cons (by decide)]
  simp only [quotedText?_quoted, skipBlank_cons (c := ':') rfl, read,
    skipBlank_cons (c := ',') rfl, others, Option.map_some]
  rfl

end Steps

/-! ## Whole documents -/

theorem separated_compactItems_eq_cons {d : Document} (ds : List Document) (h : d.isExact) :
    ∃ c cs, separated [','] (compactItems (d :: ds)) = c :: cs ∧
      isJsonBlank c = false ∧ c ≠ ']' := by
  obtain ⟨c, cs, chars, begins⟩ := compactText_eq_cons h
  cases ds with
  | nil => exact ⟨c, cs, chars, begins⟩
  | cons e ds =>
    refine ⟨c, cs ++ [','] ++ separated [','] (compactItems (e :: ds)), ?_, begins⟩
    rw [compactItems, compactItems, separated, chars, List.cons_append, List.cons_append,
      ← compactItems]
    exact fun none => List.cons_ne_nil _ _ none

theorem separated_compactMembers_eq_cons (m : String × Document) (ms : List (String × Document)) :
    ∃ cs, separated [','] (compactMembers (m :: ms)) = '"' :: cs := by
  cases ms with
  | nil => exact ⟨_, rfl⟩
  | cons n ms => exact ⟨_, rfl⟩

-- A value may take two steps for each of its characters. Items and members enter their first part
-- with one step less, and get to the next one behind a comma, whose two steps make up for it.
mutual
/-- A document is read whole from its text, and nothing behind it. -/
theorem value?_compactText : ∀ (d : Document) (fuel : Nat) (rest : List Char), d.isExact →
    2 * (compactText d).length ≤ fuel → Ends rest →
    value? fuel (compactText d ++ rest) = some (d, rest)
  | d, 0, rest, exact, enough, _ => by
    obtain ⟨c, cs, chars, -⟩ := compactText_eq_cons exact
    rw [chars, List.length_cons] at enough
    omega
  | .null, fuel + 1, rest, _, _, _ => rfl
  | .bool true, fuel + 1, rest, _, _, _ => rfl
  | .bool false, fuel + 1, rest, _, _, _ => rfl
  | .int i, fuel + 1, rest, exact, _, ends => by
    obtain ⟨c, cs, chars, number⟩ := ofInt_eq_cons i
    have scanned := scanNumeral?_ofInt i ends
    have text : compactText (.int i) = Text.Decimal.ofInt i := rfl
    rw [chars, List.cons_append] at scanned
    rw [text, chars, List.cons_append, value?_of_opensNumber fuel number, scanned, Option.map_some]
    exact congrArg (fun d => some (d, rest)) (document_of_inWholeRange exact)
  | .text s, fuel + 1, rest, _, _, _ => by
    have text : compactText (.text s) ++ rest =
        '"' :: (s.toList.flatMap escapeChar ++ '"' :: rest) := by
      simp [compactText, scalarText, quoted]
    rw [text, value?, skipBlank_cons (by decide)]
    simp only [quotedText?_quoted, Option.map_some, textDocument]
  | .list [], fuel + 1, rest, _, _, _ => rfl
  | .list (d :: ds), fuel + 1, rest, exact, enough, _ => by
    have text : compactText (.list (d :: ds)) ++ rest =
        '[' :: (separated [','] (compactItems (d :: ds)) ++ ']' :: rest) := by
      simp [compactText]
    have length := congrArg List.length text
    simp only [List.length_append, List.length_cons] at length
    have read := items?_compactItems (d :: ds) fuel rest (List.cons_ne_nil d ds) exact (by omega)
    obtain ⟨c, cs, chars, blank, closing⟩ :=
      separated_compactItems_eq_cons ds (Bool.and_eq_true_iff.1 exact).1
    rw [chars, List.cons_append] at text read
    rw [text]
    exact value?_items blank closing read
  | .table [], fuel + 1, rest, _, _, _ => rfl
  | .table (m :: ms), fuel + 1, rest, exact, enough, _ => by
    have text : compactText (.table (m :: ms)) ++ rest =
        '\x7b' :: (separated [','] (compactMembers (m :: ms)) ++ '\x7d' :: rest) := by
      simp [compactText]
    have length := congrArg List.length text
    simp only [List.length_append, List.length_cons] at length
    have read := members?_compactMembers (m :: ms) fuel rest (List.cons_ne_nil m ms) exact
      (by omega)
    obtain ⟨cs, chars⟩ := separated_compactMembers_eq_cons m ms
    rw [chars, List.cons_append] at text read
    rw [text]
    exact value?_members read
  | .real _, _, _, exact, _, _ => by cases exact
  | .unreadable, _, _, exact, _, _ => by cases exact

theorem items?_compactItems : ∀ (ds : List Document) (fuel : Nat) (rest : List Char), ds ≠ [] →
    areExact ds → 2 * (separated [','] (compactItems ds)).length + 1 ≤ fuel →
    items? fuel (separated [','] (compactItems ds) ++ ']' :: rest) = some (ds, rest)
  | [], _, _, items, _, _ => absurd rfl items
  | _ :: _, 0, _, _, _, enough => by omega
  | [d], fuel + 1, rest, _, exact, enough => by
    have text : separated [','] (compactItems [d]) = compactText d := rfl
    rw [text] at enough ⊢
    exact items?_last (value?_compactText d fuel (']' :: rest) (Bool.and_eq_true_iff.1 exact).1
      (by omega) (by simp [Ends]))
  | d :: e :: ds, fuel + 1, rest, _, exact, enough => by
    obtain ⟨first, others⟩ := Bool.and_eq_true_iff.1 exact
    have text : separated [','] (compactItems (d :: e :: ds)) ++ ']' :: rest =
        compactText d ++ ',' :: (separated [','] (compactItems (e :: ds)) ++ ']' :: rest) := by
      simp [compactItems, separated]
    have length := congrArg List.length text
    simp only [List.length_append, List.length_cons] at length
    rw [text]
    exact items?_next (value?_compactText d fuel _ first (by omega) (by simp [Ends]))
      (items?_compactItems (e :: ds) fuel rest (List.cons_ne_nil e ds) others (by omega))

theorem members?_compactMembers : ∀ (ms : List (String × Document)) (fuel : Nat) (rest : List Char),
    ms ≠ [] → membersExact ms → 2 * (separated [','] (compactMembers ms)).length + 1 ≤ fuel →
    members? fuel (separated [','] (compactMembers ms) ++ '\x7d' :: rest) =
      some (readMembers ms, rest)
  | [], _, _, items, _, _ => absurd rfl items
  | _ :: _, 0, _, _, _, enough => by omega
  | [(k, d)], fuel + 1, rest, _, exact, enough => by
    have text : separated [','] (compactMembers [(k, d)]) ++ '\x7d' :: rest =
        '"' :: (k.toList.flatMap escapeChar ++ '"' :: ':' ::
          (compactText d ++ '\x7d' :: rest)) := by
      simp [compactMembers, separated, quoted]
    have length := congrArg List.length text
    simp only [List.length_append, List.length_cons] at length
    rw [text]
    exact members?_last k (value?_compactText d fuel ('\x7d' :: rest)
      (Bool.and_eq_true_iff.1 exact).1 (by omega) (by simp [Ends]))
  | (k, d) :: m :: ms, fuel + 1, rest, _, exact, enough => by
    obtain ⟨value, others⟩ := Bool.and_eq_true_iff.1 exact
    have text : separated [','] (compactMembers ((k, d) :: m :: ms)) ++ '\x7d' :: rest =
        '"' :: (k.toList.flatMap escapeChar ++ '"' :: ':' :: (compactText d ++
          ',' :: (separated [','] (compactMembers (m :: ms)) ++ '\x7d' :: rest))) := by
      simp [compactMembers, separated, quoted]
    have length := congrArg List.length text
    simp only [List.length_append, List.length_cons] at length
    rw [text]
    exact members?_next k (value?_compactText d fuel _ value (by omega) (by simp [Ends]))
      (members?_compactMembers (m :: ms) fuel rest (List.cons_ne_nil m ms) others (by omega))
end

theorem ofJson?_toJson {d : Document} (h : d.isExact) : ofJson? d.toJson = some d := by
  have enough : 2 * (compactText d).length ≤ stepBound (compactText d) := by
    rw [stepBound]
    omega
  have read := value?_compactText d _ [] h enough (by simp [Ends])
  rw [List.append_nil] at read
  rw [ofJson?, toJson, String.toList_ofList, read]
  rfl

end Helpdesk.Document
