import ThirdpartyMsvc.Text.Basic

/-!
# Lists that are texts

A list of cmake is a text with semicolons between its elements. Semicolons
inside square brackets and behind a backslash do not separate, and empty
elements are dropped. `elements_joined` says that elements without any of these
characters are read back as they were put together.
-/

namespace CMake

/-- Texts are compared character by character. -/
scoped instance : LawfulBEq Text := inferInstance

/-- The elements of a list. The first arguments are how many square brackets are
open, and the element that is being read, last character first. -/
def elementsFrom : ℤ → Text → Text → List Text
  | _, acc, [] => if acc = [] then [] else [acc.reverse]
  | open_, acc, c :: t =>
      if c = ';' then
        if acc.head? = some '\\' then elementsFrom open_ (';' :: acc.tail) t
        else if open_ = 0 then (if acc = [] then [] else [acc.reverse]) ++ elementsFrom 0 [] t
        else elementsFrom open_ (c :: acc) t
      else
        elementsFrom (if c = '[' then open_ + 1 else if c = ']' then open_ - 1 else open_)
          (c :: acc) t

def elements (t : Text) : List Text := elementsFrom 0 [] t

def joined (ts : List Text) : Text := [';'].intercalate ts

/-- `list(APPEND …)`. -/
def appended (t : Text) (ts : List Text) : Text :=
  if t = [] then joined ts else if ts = [] then t else t ++ ';' :: joined ts

/-- No character of the text has a meaning in a list. -/
def IsPlain (t : Text) : Prop := ∀ c ∈ t, c ∉ [';', '[', ']', '\\']

instance (t : Text) : Decidable (IsPlain t) := List.decidableBAll _ t

/-- A text that is one element wherever it stands in a list. -/
structure IsElement (t : Text) : Prop where
  ne_nil : t ≠ []
  plain : IsPlain t

theorem IsPlain.append {t u : Text} (ht : IsPlain t) (hu : IsPlain u) : IsPlain (t ++ u) :=
  fun c hc => (List.mem_append.mp hc).elim (ht c) (hu c)

theorem IsElement.append {t u : Text} (ht : IsElement t) (hu : IsPlain u) : IsElement (t ++ u) :=
  ⟨fun h => ht.ne_nil (List.append_eq_nil_iff.mp h).1, ht.plain.append hu⟩

@[simp] theorem joined_nil : joined [] = [] := rfl

@[simp] theorem joined_singleton (t : Text) : joined [t] = t := by
  simp [joined]

theorem joined_cons_cons (t u : Text) (ts : List Text) :
    joined (t :: u :: ts) = t ++ ';' :: joined (u :: ts) := by
  simp [joined, List.intercalate_cons_cons]

theorem joined_append {ts us : List Text} (hts : ts ≠ []) (hus : us ≠ []) :
    joined (ts ++ us) = joined ts ++ ';' :: joined us := by
  obtain ⟨u, us, rfl⟩ := List.exists_cons_of_ne_nil hus
  induction ts with
  | nil => exact absurd rfl hts
  | cons t ts ih =>
      cases ts with
      | nil => rw [List.singleton_append, joined_cons_cons, joined_singleton]
      | cons v ts =>
          rw [List.cons_append, List.cons_append, joined_cons_cons, ← List.cons_append,
            ih (List.cons_ne_nil _ _), joined_cons_cons, List.append_assoc, List.cons_append]

theorem joined_eq_nil_iff {ts : List Text} (hts : ∀ t ∈ ts, t ≠ []) : joined ts = [] ↔ ts = [] := by
  cases ts with
  | nil => simp
  | cons t ts =>
      have ht := hts t (by simp)
      cases ts with
      | nil => simp [ht]
      | cons u ts => simp [joined_cons_cons]

/-- Elements are appended behind the ones that are there. -/
theorem appended_joined {ts : List Text} (hts : ∀ t ∈ ts, t ≠ []) (us : List Text) :
    appended (joined ts) us = joined (ts ++ us) := by
  by_cases ht : ts = []
  · subst ht
    rfl
  · rw [appended, if_neg (mt (joined_eq_nil_iff hts).mp ht)]
    by_cases hu : us = []
    · rw [if_pos hu, hu, List.append_nil]
    · rw [if_neg hu, joined_append ht hu]

/-- Characters without a meaning are part of the element. -/
theorem elementsFrom_append (t acc : Text) (ht : IsPlain t) (u : Text) :
    elementsFrom 0 acc (t ++ u) = elementsFrom 0 (t.reverse ++ acc) u := by
  induction t generalizing acc with
  | nil => rfl
  | cons c t ih =>
      have hc := ht c (by simp)
      simp only [List.mem_cons, List.not_mem_nil, or_false, not_or] at hc
      rw [List.cons_append, elementsFrom, if_neg hc.1, if_neg hc.2.1, if_neg hc.2.2.1,
        ih _ fun d hd => ht d (by simp [hd])]
      simp

theorem elements_append_semicolon {t : Text} (ht : IsElement t) (u : Text) :
    elements (t ++ ';' :: u) = t :: elements u := by
  have hlast : (t.reverse ++ []).head? ≠ some '\\' := by
    intro h
    rw [List.append_nil, List.head?_reverse] at h
    exact absurd (ht.plain _ (List.mem_of_getLast? h)) (by simp)
  rw [elements, elementsFrom_append t [] ht.plain, elementsFrom, if_pos rfl, if_neg hlast,
    if_pos rfl, if_neg (by simpa using ht.ne_nil)]
  simp [elements]

theorem elements_eq_singleton {t : Text} (ht : IsElement t) : elements t = [t] := by
  have h := elementsFrom_append t [] ht.plain []
  rw [List.append_nil, List.append_nil] at h
  rw [elements, h, elementsFrom, if_neg (by simpa using ht.ne_nil), List.reverse_reverse]

theorem elements_joined {ts : List Text} (hts : ∀ t ∈ ts, IsElement t) :
    elements (joined ts) = ts := by
  induction ts with
  | nil => rfl
  | cons t ts ih =>
      have ht := hts t (by simp)
      cases ts with
      | nil => rw [joined_singleton, elements_eq_singleton ht]
      | cons u ts =>
          rw [joined_cons_cons, elements_append_semicolon ht,
            ih fun v hv => hts v (List.mem_cons_of_mem _ hv)]

end CMake
