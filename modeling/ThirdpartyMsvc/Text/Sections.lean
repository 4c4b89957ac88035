import Mathlib.Data.List.Basic

/-!
# Sections of a list

Some elements of a list are headers, and each header opens a section that ends
before the next one. `Governs p xs h l` says that `l` stands in the section of
the header `h`, and `Leads p xs l` that it stands before the first header. The
`cons` rules are what a scanner with a flag needs, one per kind of element.
-/

namespace Sections

/-- The last header before the line `l`, in one occurrence of `l`, is `h`. -/
def Governs {α : Type*} (p : α → Bool) (lines : List α) (h l : α) : Prop :=
  ∃ pre mid post, lines = pre ++ h :: (mid ++ l :: post) ∧ p h = true ∧
    ∀ m ∈ mid ++ [l], p m = false

/-- The line `l` has an occurrence before the first header. -/
def Leads {α : Type*} (p : α → Bool) (lines : List α) (l : α) : Prop :=
  ∃ mid post, lines = mid ++ l :: post ∧ ∀ m ∈ mid ++ [l], p m = false

theorem governs_cons_of_header {α : Type*} {p : α → Bool} {lines : List α} {x h l : α}
    (hx : p x = true) :
    Governs p (x :: lines) h l ↔
      (h = x ∧ Leads p lines l) ∨
        Governs p lines h l := by
  constructor
  · rintro ⟨pre, mid, post, hlines, hh, hmid⟩
    cases pre with
    | nil =>
        obtain ⟨rfl, rfl⟩ := List.cons.inj hlines
        exact Or.inl ⟨rfl, mid, post, rfl, hmid⟩
    | cons y pre =>
        obtain ⟨-, rfl⟩ := List.cons.inj hlines
        exact Or.inr ⟨pre, mid, post, rfl, hh, hmid⟩
  · rintro (⟨rfl, mid, post, rfl, hmid⟩ | ⟨pre, mid, post, rfl, hh, hmid⟩)
    · exact ⟨[], mid, post, rfl, hx, hmid⟩
    · exact ⟨x :: pre, mid, post, rfl, hh, hmid⟩

theorem governs_cons_of_not_header {α : Type*} {p : α → Bool} {lines : List α} {x h l : α}
    (hx : p x = false) : Governs p (x :: lines) h l ↔ Governs p lines h l := by
  constructor
  · rintro ⟨pre, mid, post, hlines, hh, hmid⟩
    cases pre with
    | nil =>
        obtain ⟨rfl, -⟩ := List.cons.inj hlines
        rw [hx] at hh
        cases hh
    | cons y pre =>
        obtain ⟨-, rfl⟩ := List.cons.inj hlines
        exact ⟨pre, mid, post, rfl, hh, hmid⟩
  · rintro ⟨pre, mid, post, rfl, hh, hmid⟩
    exact ⟨x :: pre, mid, post, rfl, hh, hmid⟩

theorem leads_cons_of_not_header {α : Type*} {p : α → Bool} {lines : List α} {x l : α}
    (hx : p x = false) : Leads p (x :: lines) l ↔ l = x ∨ Leads p lines l := by
  constructor
  · rintro ⟨mid, post, hlines, hmid⟩
    cases mid with
    | nil => exact Or.inl (List.cons.inj hlines).1.symm
    | cons y mid =>
        obtain ⟨-, rfl⟩ := List.cons.inj hlines
        exact Or.inr ⟨mid, post, rfl, fun m hm => hmid m (List.mem_cons_of_mem _ hm)⟩
  · rintro (rfl | ⟨mid, post, rfl, hmid⟩)
    · exact ⟨[], lines, rfl, by simpa using hx⟩
    · refine ⟨x :: mid, post, rfl, ?_⟩
      intro m hm
      rcases List.mem_cons.mp hm with rfl | hm
      · exact hx
      · exact hmid m hm

theorem not_leads_cons_of_header {α : Type*} {p : α → Bool} {lines : List α} {x l : α}
    (hx : p x = true) : ¬ Leads p (x :: lines) l := by
  rintro ⟨mid, post, hlines, hmid⟩
  have hfalse : p x = false := by
    cases mid with
    | nil =>
        obtain ⟨rfl, -⟩ := List.cons.inj hlines
        exact hmid x (by simp)
    | cons y mid =>
        obtain ⟨rfl, -⟩ := List.cons.inj hlines
        exact hmid x (by simp)
  rw [hx] at hfalse
  cases hfalse

end Sections
