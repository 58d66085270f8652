import BitcoinTx.Text.Blank
import Mathlib.Tactic.Lemma

/-! Words that are joined by blanks are found again. -/

namespace BitcoinTx.Text

def IsWord (s : String) : Prop := s.toList ≠ [] ∧ ∀ c ∈ s.toList, isBlank c = false

lemma splitBlanks_append {w : List Char} (h : ∀ c ∈ w, isBlank c = false) (word rest : List Char) :
    splitBlanks word (w ++ rest) = splitBlanks (w.reverse ++ word) rest := by
  induction w generalizing word with
  | nil => rfl
  | cons c w ih =>
    obtain ⟨hc, hw⟩ := List.forall_mem_cons.mp h
    rw [List.cons_append, splitBlanks, hc, if_neg (by decide), ih hw, List.reverse_cons,
      List.append_assoc, List.singleton_append]

lemma splitBlanks_blank {word rest : List Char} {c : Char} (hword : word ≠ []) (hc : isBlank c = true) :
    splitBlanks word (c :: rest) = word.reverse :: splitBlanks [] rest := by
  rw [splitBlanks, hc, if_pos rfl, if_neg (by simpa using hword)]

lemma splitBlanks_nil {word : List Char} (hword : word ≠ []) : splitBlanks word [] = [word.reverse] := by
  rw [splitBlanks, if_neg (by simpa using hword)]

theorem words_intercalate {l : List String} (h : ∀ w ∈ l, IsWord w) : words (" ".intercalate l) = l := by
  induction l with
  | nil => rfl
  | cons w l ih =>
    obtain ⟨⟨hne, hw⟩, hl⟩ := List.forall_mem_cons.mp h
    have hrev : w.toList.reverse ≠ [] := by simpa using hne
    cases l with
    | nil =>
      rw [String.intercalate_singleton, words, ← List.append_nil w.toList, splitBlanks_append hw,
        List.append_nil, splitBlanks_nil hrev, List.reverse_reverse, List.map_singleton,
        String.ofList_toList]
    | cons v l =>
      have hrest := ih hl
      have hspace : " ".toList = [' '] := rfl
      rw [words] at hrest
      rw [String.intercalate_cons_cons, words, String.toList_append, String.toList_append,
        List.append_assoc, splitBlanks_append hw, List.append_nil, hspace, List.singleton_append,
        splitBlanks_blank hrev rfl, List.reverse_reverse, List.map_cons, hrest, String.ofList_toList]

end BitcoinTx.Text
