import ThirdpartyMsvc.Regex.Match
import Mathlib.Computability.Language

/-!
# The language of a regular expression

`language mem r` is the set of words that the expression `r` can consume, with
the anchors read as the empty word. A match consumes a word of that language
(`Matches.exists_consumed`), and the capture of a group is the word that its
expression consumed (`Matches.group_consumed`), so what is proved about the
words of an expression holds of every match, whatever the order of the search.
-/

namespace Regex

open Computability

/-- `w` stands between the two cursors. -/
structure Consumed {α : Type*} (w : List α) (c d : Cursor α) : Prop where
  after : c.after = w ++ d.after
  before : d.before = w.reverse ++ c.before

namespace Consumed

variable {α : Type*} {u v w : List α} {c d e : Cursor α}

theorem nil (c : Cursor α) : Consumed [] c c := ⟨rfl, rfl⟩

theorem trans (hu : Consumed u c d) (hv : Consumed v d e) : Consumed (u ++ v) c e := by
  constructor
  · rw [hu.after, hv.after, List.append_assoc]
  · rw [hv.before, hu.before, List.reverse_append, List.append_assoc]

theorem capture (h : Consumed w c d) (i : ℕ) : Consumed w c (d.capture i c) :=
  ⟨h.after, h.before⟩

/-- The group that was opened where `w` begins captures `w`. -/
theorem group_capture (h : Consumed w c d) (i : ℕ) : (d.capture i c).group i = some w := by
  obtain ⟨b, a, cs⟩ := d
  rw [Cursor.capture_append i c w b a cs h.before, Cursor.group]
  simp

end Consumed

section language

variable {σ α : Type*} {mem : σ → α → Bool} {r : Regex σ}

/-- The words that an expression consumes. -/
def language (mem : σ → α → Bool) : Regex σ → Language α
  | empty => 1
  | sat s => {w : List α | ∃ a, mem s a = true ∧ w = [a]}
  | seq r s => language mem r * language mem s
  | alt r s => language mem r + language mem s
  | star r => (language mem r)∗
  | group _ r => language mem r
  | bos => 1
  | eos _ => 1

theorem mem_language_sat {s : σ} {w : List α} :
    w ∈ language mem (sat s) ↔ ∃ a, mem s a = true ∧ w = [a] := Iff.rfl

theorem mem_language_seq {s : Regex σ} {w : List α} :
    w ∈ language mem (seq r s) ↔
      ∃ u ∈ language mem r, ∃ v ∈ language mem s, u ++ v = w :=
  Language.mem_mul

theorem mem_language_star {w : List α} :
    w ∈ language mem (star r) ↔ ∃ ws : List (List α), w = ws.flatten ∧
      ∀ u ∈ ws, u ∈ language mem r :=
  Language.mem_kstar

/-- A round in front of the words of a repetition. -/
theorem append_mem_language_star {u v : List α} (hu : u ∈ language mem r)
    (hv : v ∈ language mem (star r)) : u ++ v ∈ language mem (star r) := by
  obtain ⟨ws, rfl, hws⟩ := mem_language_star.mp hv
  refine mem_language_star.mpr ⟨u :: ws, rfl, ?_⟩
  intro w hw
  rcases List.mem_cons.mp hw with rfl | hw
  · exact hu
  · exact hws w hw

/-- What holds of the empty word and of every round in front of a word holds of
every repetition. -/
theorem language_star_induction {P : List α → Prop} (nil : P [])
    (round : ∀ u ∈ language mem r, ∀ v, P v → P (u ++ v)) :
    ∀ w ∈ language mem (star r), P w := by
  intro w hw
  obtain ⟨ws, rfl, hws⟩ := mem_language_star.mp hw
  induction ws with
  | nil => exact nil
  | cons u ws ih =>
      have hrest : ∀ v ∈ ws, v ∈ language mem r := fun v hv => hws v (by simp [hv])
      exact round u (hws u (by simp)) _ (ih hrest (mem_language_star.mpr ⟨ws, rfl, hrest⟩))

/-- The symbols of a repetition are symbols of its rounds. -/
theorem forall_mem_of_language_star {p : α → Prop}
    (h : ∀ u ∈ language mem r, ∀ a ∈ u, p a) :
    ∀ w ∈ language mem (star r), ∀ a ∈ w, p a := by
  apply language_star_induction
  · simp
  · intro u hu v hv a ha
    rcases List.mem_append.mp ha with ha | ha
    · exact h u hu a ha
    · exact hv a ha

/-- A match consumes a word of the expression. -/
theorem Matches.exists_consumed {c d : Cursor α} (h : Matches mem r c d) :
    ∃ w ∈ language mem r, Consumed w c d := by
  induction h with
  | sat b t cs hm => exact ⟨_, ⟨_, hm, rfl⟩, rfl, rfl⟩
  | seq _ _ ihr ihs =>
      obtain ⟨u, hu, hcu⟩ := ihr
      obtain ⟨v, hv, hcv⟩ := ihs
      exact ⟨u ++ v, mem_language_seq.mpr ⟨u, hu, v, hv, rfl⟩, hcu.trans hcv⟩
  | altLeft s _ ih =>
      obtain ⟨u, hu, hcu⟩ := ih
      exact ⟨u, Or.inl hu, hcu⟩
  | altRight r _ ih =>
      obtain ⟨u, hu, hcu⟩ := ih
      exact ⟨u, Or.inr hu, hcu⟩
  | starStop r c => exact ⟨[], Language.nil_mem_kstar _, Consumed.nil c⟩
  | starStep _ _ _ ihr ihs =>
      obtain ⟨u, hu, hcu⟩ := ihr
      obtain ⟨v, hv, hcv⟩ := ihs
      exact ⟨u ++ v, append_mem_language_star hu hv, hcu.trans hcv⟩
  | group i _ ih =>
      obtain ⟨u, hu, hcu⟩ := ih
      exact ⟨u, hu, hcu.capture i⟩
  | empty c => exact ⟨[], Language.nil_mem_one, Consumed.nil c⟩
  | bos a cs => exact ⟨[], Language.nil_mem_one, Consumed.nil _⟩
  | eosEnd nl b cs => exact ⟨[], Language.nil_mem_one, Consumed.nil _⟩
  | eosLast b cs hm => exact ⟨[], Language.nil_mem_one, Consumed.nil _⟩

/-- A group captures the word that its expression consumes. -/
theorem Matches.group_consumed {i : ℕ} {c d : Cursor α} (h : Matches mem (.group i r) c d) :
    ∃ w ∈ language mem r, Consumed w c d ∧ d.group i = some w := by
  cases h with
  | group _ h =>
      obtain ⟨w, hw, hc⟩ := h.exists_consumed
      exact ⟨w, hw, hc.capture i, hc.group_capture i⟩

theorem matches_concat_cons {rs : List (Regex σ)} {c e : Cursor α} :
    Matches mem (concat (r :: rs)) c e ↔
      ∃ d, Matches mem r c d ∧ Matches mem (concat rs) d e := by
  constructor
  · intro h
    cases h with
    | seq hr hs => exact ⟨_, hr, hs⟩
  · rintro ⟨d, hr, hs⟩
    exact .seq hr hs

end language

end Regex
