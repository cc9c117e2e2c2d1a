import Mathlib.Data.List.Chain

/-!
# The text of a shell script

Simple commands with a `;` between them, all of whose characters stand for themselves. In this
part of its language the shell splits a text at blanks and semicolons and does nothing else.
-/
namespace EnclaveNetworkGateway

namespace Shell

/-- Characters that mean nothing to the shell but themselves. -/
def isPlain (c : Char) : Bool := c.isAlphanum || c == '-' || c == '.' || c == ':'

def isWord (w : String) : Bool := w != "" && w.toList.all isPlain

def words (text : String) : List String :=
  ((text.toList.splitOn ' ').filter (· ≠ [])).map String.ofList

/-- The commands of a script, each as its words; `none` where one is empty or something else than
a word or a semicolon occurs. -/
def readScript (text : String) : Option (List (List String)) :=
  let commands := (words text).splitOn ";"
  if (∀ w ∈ words text, w = ";" ∨ isWord w = true) ∧ [] ∉ commands then some commands else none

/-- What follows `/bin/sh`: whether the shell stops at the first failure, and the script. -/
def readArgs : List String → Option (Bool × List (List String))
  | ["-e", "-c", text] => (readScript text).map (true, ·)
  | ["-c", text] => (readScript text).map (false, ·)
  | _ => none

/-! ## Pieces of a text -/

variable {a b w : String}

/-- No word goes across the seam. -/
def Apart (a b : String) : Prop := a.toList.getLast? = some ' ' ∨ b.toList.head? = some ' '

instance : DecidableRel Apart := fun a b =>
  inferInstanceAs (Decidable (a.toList.getLast? = some ' ' ∨ b.toList.head? = some ' '))

theorem words_of_isWord (hw : isWord w = true) : words w = [w] := by
  rw [isWord, Bool.and_eq_true, bne_iff_ne] at hw
  have hblank : ' ' ∉ w.toList := by
    intro h
    have hplain := List.all_eq_true.mp hw.2 ' ' h
    exact absurd hplain (by decide)
  have hlist : w.toList ≠ [] := by simpa using hw.1
  simp [words, List.splitOn_eq_singleton hblank, hlist]

theorem words_append_blank : words (a ++ " " ++ b) = words a ++ words b := by
  have hlist : (a ++ " " ++ b).toList = a.toList ++ ' ' :: b.toList := by simp
  rw [words, words, words, hlist, List.splitOn_append_cons_self, List.filter_append,
    List.map_append]

theorem words_append (h : Apart a b) : words (a ++ b) = words a ++ words b := by
  have hempty : words "" = [] := by decide
  cases h with
  | inl ha =>
    obtain ⟨l, hl⟩ := List.getLast?_eq_some_iff.mp ha
    have heq : a = String.ofList l ++ " " := by
      apply String.toList_inj.mp
      simp [hl]
    have hleft : words a = words (String.ofList l) := by
      have happ := words_append_blank (a := String.ofList l) (b := "")
      rwa [String.append_empty, ← heq, hempty, List.append_nil] at happ
    rw [hleft, heq, words_append_blank]
  | inr hb =>
    obtain ⟨l, hl⟩ := List.head?_eq_some_iff.mp hb
    have heq : b = " " ++ String.ofList l := by
      apply String.toList_inj.mp
      simp [hl]
    have hright : words b = words (String.ofList l) := by
      have happ := words_append_blank (a := "") (b := String.ofList l)
      rwa [String.empty_append, ← heq, hempty, List.nil_append] at happ
    rw [hright, heq, ← String.append_assoc, words_append_blank]

/-- A text whose pieces meet at blanks is read piece by piece. -/
theorem words_join {l : List String} (h : l.IsChain Apart) :
    words (String.join l) = l.flatMap words := by
  induction l with
  | nil => decide
  | cons a l ih =>
    rw [String.join_cons, List.flatMap_cons, ← ih h.tail]
    cases l with
    | nil => simp [show words "" = [] by decide]
    | cons b l =>
      apply words_append
      cases h with
      | cons_cons hab =>
        cases hab with
        | inl ha => exact Or.inl ha
        | inr hb =>
          obtain ⟨r, hr⟩ := List.head?_eq_some_iff.mp hb
          exact Or.inr (by simp [hr])

theorem mem_of_mem_intercalate {α : Type*} {sep x : α} {l : List (List α)}
    (h : x ∈ [sep].intercalate l) : x = sep ∨ ∃ c ∈ l, x ∈ c := by
  induction l with
  | nil => simp at h
  | cons c l ih =>
    cases l with
    | nil => exact Or.inr ⟨c, by simp, by simpa using h⟩
    | cons d l =>
      rw [List.intercalate_cons_cons, List.mem_append, List.mem_append, List.mem_singleton] at h
      rcases h with (hc | hsep) | hrest
      · exact Or.inr ⟨c, by simp, hc⟩
      · exact Or.inl hsep
      · rcases ih hrest with hsep | ⟨e, he, hx⟩
        · exact Or.inl hsep
        · exact Or.inr ⟨e, List.mem_cons_of_mem c he, hx⟩

/-- Pieces that have these words between semicolons are read as these commands. -/
theorem readScript_join {l : List String} {cs : List (List String)} (hne : cs ≠ [])
    (hcs : cs.all (fun c => c != [] && c.all isWord) = true) (hl : l.IsChain Apart)
    (hwords : l.flatMap words = [";"].intercalate cs) : readScript (String.join l) = some cs := by
  have hsound : ∀ c ∈ cs, c ≠ [] ∧ ∀ w ∈ c, isWord w = true := by simpa using hcs
  have hsep : ∀ c ∈ cs, ";" ∉ c := by
    intro c hc hmem
    exact absurd ((hsound c hc).2 _ hmem) (by decide)
  rw [readScript, words_join hl, hwords, List.splitOn_intercalate ";" hsep hne]
  apply if_pos
  constructor
  · intro w hw
    apply (mem_of_mem_intercalate hw).imp_right
    rintro ⟨c, hc, hmem⟩
    exact (hsound c hc).2 w hmem
  · intro hnil
    exact (hsound [] hnil).1 rfl

end Shell

end EnclaveNetworkGateway
