import ThirdpartyMsvc.Text.Basic
import Mathlib.Data.List.Forall2

/-!
# str.format

Replacement of the fields of a template. The reader is either in the text of
the template or, behind an opening brace, in the name of a field; a doubled
brace stands for itself.
-/

namespace Text

/-- The text of the template from a position on. The second argument is the
name of the field that is being read, last character first. -/
def formatFrom (fields : List (Text × Text)) : Option Text → Text → Option Text
  | none, [] => some []
  | some _, [] => none
  | none, '\x7b' :: '\x7b' :: t => (formatFrom fields none t).map ('\x7b' :: ·)
  | none, '\x7d' :: '\x7d' :: t => (formatFrom fields none t).map ('\x7d' :: ·)
  | none, c :: t =>
      if c = '\x7b' then formatFrom fields (some []) t
      else if c = '\x7d' then none
      else (formatFrom fields none t).map (c :: ·)
  | some name, c :: t =>
      if c = '\x7d' then do
        let value ← fields.lookup name.reverse
        let rest ← formatFrom fields none t
        return value ++ rest
      else formatFrom fields (some (c :: name)) t

/-- str.format with named fields; `none` is a KeyError or a ValueError. -/
def format (fields : List (Text × Text)) (template : Text) : Option Text :=
  formatFrom fields none template

/-- A template without braces is copied. -/
theorem formatFrom_of_no_brace (fields : List (Text × Text)) (a : Text)
    (ha : ∀ c ∈ a, c ≠ '\x7b' ∧ c ≠ '\x7d') : formatFrom fields none a = some a := by
  induction a with
  | nil => rfl
  | cons c a ih =>
      have hc := ha c (by simp)
      rw [formatFrom, if_neg hc.1, if_neg hc.2, ih fun d hd => ha d (by simp [hd])]
      · rfl
      · rintro t' rfl
        exact absurd rfl hc.1
      · rintro t' rfl
        exact absurd rfl hc.2

/-- A template can be formatted piece by piece, if no field crosses the border
of a piece. -/
theorem formatFrom_append (fields : List (Text × Text)) (name : Option Text) (a t u : Text)
    (ha : formatFrom fields name a = some u) :
    formatFrom fields name (a ++ t) = (formatFrom fields none t).map (u ++ ·) := by
  induction name, a using formatFrom.induct generalizing u with
  | case1 =>
      obtain rfl := Option.some.inj ha
      simp
  | case2 => cases ha
  | case3 a ih =>
      simp only [formatFrom, Option.map_eq_some_iff] at ha
      obtain ⟨v, hv, rfl⟩ := ha
      simp only [List.cons_append, formatFrom, ih v hv, Option.map_map]
      rfl
  | case4 a ih =>
      simp only [formatFrom, Option.map_eq_some_iff] at ha
      obtain ⟨v, hv, rfl⟩ := ha
      simp only [List.cons_append, formatFrom, ih v hv, Option.map_map]
      rfl
  | case5 a hopen _ ih =>
      have hstep : ∀ t, formatFrom fields none ('\x7b' :: (a ++ t)) =
          formatFrom fields (some []) (a ++ t) := by
        intro t
        cases a with
        | nil =>
            rw [formatFrom, if_pos rfl] at ha
            · cases ha
            · exact hopen
            · simp
        | cons c a =>
            rw [formatFrom, if_pos rfl]
            · rintro t' h ht'
              exact hopen a h (by rw [(List.cons.inj ht').1])
            · simp
      rw [List.cons_append, hstep]
      apply ih
      rw [← ha, ← List.append_nil a, hstep, List.append_nil]
  | case6 a _ hclose hne =>
      rw [formatFrom, if_neg hne, if_pos rfl] at ha
      · cases ha
      · simp
      · exact hclose
  | case7 c a hopen hclose hc hc' ih =>
      have hstep : ∀ t, formatFrom fields none (c :: t) =
          (formatFrom fields none t).map (c :: ·) := by
        intro t
        rw [formatFrom, if_neg hc, if_neg hc']
        · rintro t' h
          exact absurd h hc
        · rintro t' h
          exact absurd h hc'
      rw [hstep, Option.map_eq_some_iff] at ha
      obtain ⟨v, hv, rfl⟩ := ha
      rw [List.cons_append, hstep, ih v hv, Option.map_map]
      rfl
  | case8 name a ih =>
      rw [formatFrom, if_pos rfl] at ha
      cases hvalue : fields.lookup name.reverse with
      | none => rw [hvalue] at ha; cases ha
      | some value =>
          cases hrest : formatFrom fields none a with
          | none => rw [hvalue, hrest] at ha; cases ha
          | some rest =>
              rw [hvalue, hrest] at ha
              obtain rfl := Option.some.inj ha
              rw [List.cons_append, formatFrom, if_pos rfl, hvalue, ih rest hrest]
              cases formatFrom fields none t <;> simp
  | case9 name c a hc ih =>
      rw [formatFrom, if_neg hc] at ha
      rw [List.cons_append, formatFrom, if_neg hc, ih u ha]

/-- A template is formatted line by line. -/
theorem format_unlines (fields : List (Text × Text)) (ls us : List Text)
    (h : List.Forall₂ (fun l u => formatFrom fields none l = some u) ls us) :
    format fields (unlines ls) = some (unlines us) := by
  induction h with
  | nil => rfl
  | cons hl _ ih =>
      have hlf : formatFrom fields none ['\n'] = some ['\n'] := rfl
      rw [format] at ih ⊢
      simp only [unlines, List.flatMap_cons] at ih ⊢
      rw [formatFrom_append _ _ _ _ _
        ((formatFrom_append _ _ _ _ _ hl).trans (by rw [hlf]; rfl)), ih]
      rfl

end Text
