import ThirdpartyMsvc.Python.Sre

/-!
# Substitution of matches

`scanFrom` goes through a subject once, from left to right, and tells the
matches of a pattern from the characters between them. It follows `re.sub`: a
match may be empty, but an empty match is not followed by another one in the
same place. The search for a match is a parameter, so that the order of the
scan does not depend on the engine.
-/

namespace Python

open Regex

/-- The groups of a match, by their numbers. -/
abbrev Groups := ℕ → Option Text

/-- A piece of a subject: a character outside every match, or a match. -/
abbrev Piece := Char ⊕ Cursor Char

/-- The pieces of a subject. `find true` refuses the empty match, and the first
argument counts the characters that belong to the last match. -/
def scanFrom (find : Bool → Cursor Char → Option (Cursor Char)) :
    ℕ → Text → Text → List Piece
  | 0, b, [] =>
      match find false ⟨b, [], []⟩ with
      | none => []
      | some m => [.inr m]
  | _ + 1, _, [] => []
  | n + 1, b, c :: t => scanFrom find n (c :: b) t
  | 0, b, c :: t =>
      match find false ⟨b, c :: t, []⟩ with
      | none => .inl c :: scanFrom find 0 (c :: b) t
      | some m =>
          if m.after.length ≤ t.length then
            .inr m :: scanFrom find (t.length - m.after.length) (c :: b) t
          else
            match find true ⟨b, c :: t, []⟩ with
            | none => .inr m :: .inl c :: scanFrom find 0 (c :: b) t
            | some m' =>
                .inr m :: .inr m' :: scanFrom find (t.length - m'.after.length) (c :: b) t

/-- A match of a compiled pattern that begins at the cursor. -/
def Pattern.find (T : CharTable) (p : Pattern) (mustAdvance : Bool) (c : Cursor Char) :
    Option (Cursor Char) :=
  run (CharSet.mem T) p.re c fun d =>
    if mustAdvance && d.after.length == c.after.length then none else some d

/-- Pattern.finditer, with the characters between the matches. -/
def Pattern.scan (T : CharTable) (p : Pattern) (t : Text) : List (Char ⊕ Groups) :=
  (scanFrom (p.find T) 0 [] t).map (Sum.map id Cursor.group)

/-- The result of a substitution, piece by piece. -/
def substitute {ε : Type} (repl : Groups → Except ε Text) :
    List (Char ⊕ Groups) → Except ε Text
  | [] => .ok []
  | .inl c :: ps => (substitute repl ps).map (c :: ·)
  | .inr m :: ps => do
      let new ← repl m
      let rest ← substitute repl ps
      return new ++ rest

section scan

variable {f : Bool → Cursor Char → Option (Cursor Char)}

/-- The characters of a match are passed over. -/
theorem scanFrom_skip (w b t : Text) :
    scanFrom f w.length b (w ++ t) = scanFrom f 0 (w.reverse ++ b) t := by
  induction w generalizing b with
  | nil => rfl
  | cons c w ih =>
      rw [List.length_cons, List.cons_append, scanFrom, ih]
      simp

/-- Without a match at any position of `x` its characters are kept. -/
theorem scanFrom_append (x b t : Text)
    (hx : ∀ u v, x = u ++ v → v ≠ [] → f false ⟨u.reverse ++ b, v ++ t, []⟩ = none) :
    scanFrom f 0 b (x ++ t) = x.map .inl ++ scanFrom f 0 (x.reverse ++ b) t := by
  induction x generalizing b with
  | nil => rfl
  | cons c x ih =>
      have hnone : f false ⟨b, c :: (x ++ t), []⟩ = none := hx [] (c :: x) rfl (by simp)
      rw [List.cons_append, scanFrom, hnone]
      simp only
      rw [ih (c :: b)]
      · simp
      · rintro u v rfl hv
        simpa using hx (c :: u) v rfl hv

/-- Without any match the pieces are the characters. -/
theorem scanFrom_eq_map (x : Text)
    (hx : ∀ u v, x = u ++ v → f false ⟨u.reverse, v, []⟩ = none) :
    scanFrom f 0 [] x = x.map .inl := by
  have h := scanFrom_append (f := f) x [] [] fun u v huv _ => by
    simpa using hx u v huv
  have hend : f false ⟨x.reverse, [], []⟩ = none := hx x [] (by simp)
  rw [List.append_nil, List.append_nil] at h
  rw [h, scanFrom, hend]
  simp

/-- A match that consumes `w` is one piece. -/
theorem scanFrom_match (c : Char) (w b t : Text) (caps : List (ℕ × Text))
    (hm : f false ⟨b, c :: w ++ t, []⟩ = some ⟨(c :: w).reverse ++ b, t, caps⟩) :
    scanFrom f 0 b (c :: w ++ t) =
      .inr ⟨(c :: w).reverse ++ b, t, caps⟩ :: scanFrom f 0 ((c :: w).reverse ++ b) t := by
  rw [List.cons_append] at hm ⊢
  rw [scanFrom, hm]
  have hle : t.length ≤ (w ++ t).length := by simp
  have hskip := scanFrom_skip (f := f) w (c :: b) t
  have hlen : (w ++ t).length - t.length = w.length := by simp
  simp only [hle, if_true, hlen, hskip]
  simp

end scan

theorem substitute_map_inl {ε : Type} (repl : Groups → Except ε Text) (x : Text)
    (ps : List (Char ⊕ Groups)) :
    substitute repl (x.map .inl ++ ps) = (substitute repl ps).map (x ++ ·) := by
  induction x with
  | nil => cases h : substitute repl ps <;> simp [h, Except.map]
  | cons c x ih =>
      rw [List.map_cons, List.cons_append, substitute, ih]
      cases substitute repl ps <;> rfl

/-- A substitution succeeds when every match has a replacement. -/
theorem exists_substitute_eq_ok_iff {ε : Type} (repl : Groups → Except ε Text)
    (ps : List (Char ⊕ Groups)) :
    (∃ out, substitute repl ps = .ok out) ↔ ∀ m, .inr m ∈ ps → ∃ out, repl m = .ok out := by
  induction ps with
  | nil => simp [substitute]
  | cons p ps ih =>
      cases p with
      | inl c =>
          rw [substitute]
          cases hps : substitute repl ps <;> simp_all [Except.map]
      | inr m =>
          rw [substitute]
          cases hm : repl m with
          | error e => simp [hm, bind, Except.bind]
          | ok new => cases hps : substitute repl ps <;> simp_all [bind, Except.bind, pure, Except.pure]

/-- A substitution changes nothing where nothing matches. -/
theorem substitute_scan_of_no_match {ε : Type} (T : CharTable) (p : Pattern)
    (repl : Groups → Except ε Text) (x : Text)
    (hx : ∀ u v, x = u ++ v → p.find T false ⟨u.reverse, v, []⟩ = none) :
    substitute repl (p.scan T x) = .ok x := by
  have h := substitute_map_inl repl x []
  rw [Pattern.scan, scanFrom_eq_map x hx, List.map_map]
  rw [List.append_nil] at h
  have hcomp : Sum.map id Cursor.group ∘ Sum.inl = (Sum.inl : Char → Char ⊕ Groups) := rfl
  rw [hcomp, h]
  simp [substitute, Except.map]

/-- The first match is replaced, and what is behind it stays when it has no
match of its own. -/
theorem substitute_scan_of_match {ε : Type} (T : CharTable) (p : Pattern)
    (repl : Groups → Except ε Text) (x : Text) (c : Char) (w post : Text)
    (caps : List (ℕ × Text))
    (hx : ∀ u v, x = u ++ v → v ≠ [] →
      p.find T false ⟨u.reverse, v ++ (c :: w ++ post), []⟩ = none)
    (hm : p.find T false ⟨x.reverse, c :: w ++ post, []⟩ =
      some ⟨(c :: w).reverse ++ x.reverse, post, caps⟩)
    (hpost : ∀ b v, v <:+ post → p.find T false ⟨b, v, []⟩ = none) {new : Text}
    (hnew : repl (fun i => caps.lookup i) = .ok new) :
    substitute repl (p.scan T (x ++ (c :: w ++ post))) = .ok (x ++ (new ++ post)) := by
  have hbefore := scanFrom_append (f := p.find T) x [] (c :: w ++ post) fun u v huv hv => by
    simpa using hx u v huv hv
  have hmatch := scanFrom_match (f := p.find T) c w x.reverse post caps hm
  have hbehind := scanFrom_append (f := p.find T) post ((c :: w).reverse ++ x.reverse) []
    fun u v huv _ => by simpa using hpost _ v ⟨u, huv.symm⟩
  have hend : p.find T false ⟨post.reverse ++ ((c :: w).reverse ++ x.reverse), [], []⟩ = none :=
    hpost _ [] List.nil_suffix
  have hmap : ∀ t : Text, (t.map Sum.inl).map (Sum.map id Cursor.group) =
      (t.map Sum.inl : List (Char ⊕ Groups)) := by
    intro t
    rw [List.map_map]
    rfl
  rw [List.append_nil] at hbefore hbehind
  rw [scanFrom, hend] at hbehind
  rw [Pattern.scan, hbefore, hmatch, hbehind, List.append_nil, List.map_append, hmap,
    List.map_cons, hmap, substitute_map_inl]
  have hgroups : Sum.map id Cursor.group (Sum.inr ⟨(c :: w).reverse ++ x.reverse, post, caps⟩ :
      Piece) = (Sum.inr fun i => caps.lookup i : Char ⊕ Groups) := rfl
  have hrest := substitute_map_inl repl post []
  rw [List.append_nil] at hrest
  rw [hgroups, substitute, hnew, hrest]
  simp [substitute, Except.map, bind, Except.bind, pure, Except.pure]

end Python
