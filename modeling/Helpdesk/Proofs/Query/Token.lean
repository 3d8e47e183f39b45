import Helpdesk.Query.Reader
import Mathlib.Data.List.SplitBy

/-! The tokens of a statement's text. A text that is put together around characters that cling to none has
the tokens of its parts. -/

namespace Helpdesk.Sql

theorem not_clings_of_isLoose_left {a b : Char} (h : isLoose a) : clings a b = false := by
  simp only [isLoose, Bool.and_eq_true, Bool.not_eq_true'] at h
  simp [clings, h.1, h.2]

theorem not_clings_of_isLoose_right {a b : Char} (h : isLoose b) : clings a b = false := by
  simp only [isLoose, Bool.and_eq_true, Bool.not_eq_true'] at h
  simp [clings, h.1, h.2]

theorem tokens_append {a b : String}
    (h : ∀ x ∈ a.toList.getLast?, ∀ y ∈ b.toList.head?, clings x y = false) :
    tokens (a ++ b) = tokens a ++ tokens b := by
  rw [tokens, String.toList_append, List.splitBy_append h, List.filter_append, List.map_append]
  rfl

theorem tokens_append_of_head {a b : String} (h : b.toList.head?.all isLoose) :
    tokens (a ++ b) = tokens a ++ tokens b := by
  refine tokens_append fun x _ y hy => not_clings_of_isLoose_right ?_
  rw [Option.mem_def.1 hy] at h
  exact h

theorem tokens_append_of_getLast {a b : String} (h : a.toList.getLast?.all isLoose) :
    tokens (a ++ b) = tokens a ++ tokens b := by
  refine tokens_append fun x hx y _ => not_clings_of_isLoose_left ?_
  rw [Option.mem_def.1 hx] at h
  exact h

theorem tokens_around {a b middle : String} (nonempty : middle ≠ "")
    (first : middle.toList.head?.all isLoose) (last : middle.toList.getLast?.all isLoose) :
    tokens (a ++ middle ++ b) = tokens a ++ tokens middle ++ tokens b := by
  rw [String.append_assoc, tokens_append_of_head, tokens_append_of_getLast last, List.append_assoc]
  rw [String.toList_append, List.head?_append_of_ne_nil]
  · exact first
  · exact fun h => nonempty (String.toList_eq_nil_iff.1 h)

theorem tokens_word {s : String} (nonempty : s ≠ "") (h : s.toList.all isWordChar) :
    tokens s = [s] := by
  have chain : s.toList.IsChain fun x y => clings x y := by
    refine List.Pairwise.isChain (List.pairwise_of_forall_mem_list fun x hx y hy => ?_)
    have wx := List.all_eq_true.1 h x hx
    have wy := List.all_eq_true.1 h y hy
    simp [clings, wx, wy]
  have notBlank : s.toList ≠ [' '] := by
    intro blank
    rw [blank] at h
    exact absurd h (by decide)
  rw [tokens, List.splitBy_of_isChain (fun e => nonempty (String.toList_eq_nil_iff.1 e)) chain,
    List.filter_cons_of_pos (by simpa using notBlank)]
  simp

theorem isNameChar_of_isIdentifierChar {c : Char} (h : c.isAlphanum || c == '_') :
    isNameChar c := by
  rw [isNameChar, h, Bool.true_or]

theorem isWordChar_of_isNameChar {c : Char} (h : isNameChar c) : isWordChar c := by
  rw [isWordChar, h, Bool.true_or]

theorem isWordChar_of_isDigit {c : Char} (h : Text.Decimal.isDigit c) : isWordChar c := by
  simp only [Text.Decimal.isDigit] at h
  exact isWordChar_of_isNameChar (isNameChar_of_isIdentifierChar (by simp [Char.isAlphanum, h]))

theorem tokens_placeText (place : Nat) :
    tokens (Clause.placeText place) = [Clause.placeText place] := by
  have chars : (Clause.placeText place).toList = '?' :: Text.Decimal.ofNat place := by
    simp [Clause.placeText]
  refine tokens_word (fun h => ?_) ?_
  · rw [h] at chars
    cases chars
  · rw [chars, List.all_cons, Bool.and_eq_true]
    refine ⟨by decide, List.all_eq_true.2 fun c hc => ?_⟩
    exact isWordChar_of_isDigit (Text.Decimal.isDigit_of_mem_ofNat hc)

end Helpdesk.Sql
