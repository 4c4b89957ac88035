import ThirdpartyMsvc.Text.Basic
import ThirdpartyMsvc.Regex.Greedy

/-!
# Windows paths

`join`, `split`, `splitdrive` and `splitext` of ntpath. The two separators are
told apart nowhere. `split_join` and `splitExt_join` are what a program may rely
on that joins the name of a file to a directory and takes the path apart again:
the directory comes back in one spelling, `dirKey`, that does not depend on the
name and that is its own spelling.
-/

namespace Python

/-- The path separators. -/
def isSep (c : Char) : Bool := c == '\\' || c == '/'

/-- The part of a path up to the next separator. -/
def component (t : Text) : Text := t.takeWhile fun c => !isSep c

/-- The part of a path from the next separator on. -/
def afterComponent (t : Text) : Text := t.dropWhile fun c => !isSep c

/-- The drive of `\\host\share`, behind the first two separators, if there is
one. -/
def splitUnc (a b : Char) (rest : Text) : Text × Text :=
  match afterComponent rest with
  | [] => ([], a :: b :: rest)
  | s :: rest' =>
      if rest'.head?.any isSep then ([], a :: b :: rest)
      else (a :: b :: (component rest ++ s :: component rest'), afterComponent rest')

def splitDrive : Text → Text × Text
  | a :: b :: rest =>
      if isSep a && isSep b && !rest.head?.any isSep then splitUnc a b rest
      else if b = ':' then ([a, b], rest)
      else ([], a :: b :: rest)
  | p => ([], p)

/-- The part of a path behind its last separator. -/
def lastComponent (t : Text) : Text := t.rtakeWhile fun c => !isSep c

/-- The part of a path up to and with its last separator. -/
def beforeLast (t : Text) : Text := Text.rstrip (fun c => !isSep c) t

/-- `head.rstrip(seps) or head`. -/
def stripSeps (head : Text) : Text :=
  if Text.rstrip isSep head = [] then head else Text.rstrip isSep head

def split (p : Text) : Text × Text :=
  ((splitDrive p).1 ++ stripSeps (beforeLast (splitDrive p).2), lastComponent (splitDrive p).2)

/-- join of a directory and one further part. -/
def join (path p : Text) : Text :=
  let (resultDrive, resultPath) := splitDrive path
  let (pDrive, pPath) := splitDrive p
  let (drive, body) :=
    if pPath.head?.any isSep then
      (if pDrive ≠ [] ∨ resultDrive = [] then pDrive else resultDrive, pPath)
    else if pDrive ≠ [] ∧ pDrive.map Char.toLower ≠ resultDrive.map Char.toLower then
      (pDrive, pPath)
    else
      (if pDrive ≠ [] then pDrive else resultDrive,
        (if resultPath.getLast?.any fun c => !isSep c then resultPath ++ ['\\'] else resultPath)
          ++ pPath)
  if (body.head?.any fun c => !isSep c) && drive ≠ [] && drive.getLast? ≠ some ':' then
    drive ++ '\\' :: body
  else drive ++ body

/-- The root and the extension of the last component; leading dots do not begin
an extension. -/
def splitExt (p : Text) : Text × Text :=
  match p.reverse.dropWhile fun c => c ≠ '.' && !isSep c with
  | '.' :: before =>
      if (before.takeWhile fun c => !isSep c).any (· ≠ '.') then
        (before.reverse, '.' :: (p.reverse.takeWhile fun c => c ≠ '.' && !isSep c).reverse)
      else (p, [])
  | _ => (p, [])

/-! ## Trailing separators -/

theorem rstrip_append_of_exists {p : Char → Bool} (u : Text) {v : Text}
    (h : ∃ c ∈ v, p c = false) : Text.rstrip p (u ++ v) = u ++ Text.rstrip p v := by
  obtain ⟨c, hc, hpc⟩ := h
  have hne : (v.reverse.dropWhile p).isEmpty = false := by
    rw [List.isEmpty_eq_false_iff]
    intro hnil
    have hall := List.dropWhile_eq_nil_iff.mp hnil c (by simpa using hc)
    rw [hpc] at hall
    cases hall
  rw [Text.rstrip, Text.rstrip, List.rdropWhile, List.rdropWhile, List.reverse_append,
    List.dropWhile_append, hne, if_neg (by simp), List.reverse_append, List.reverse_reverse]

/-- The last character, if there is one, is a separator. -/
def EndsSep (t : Text) : Prop := ∀ c ∈ t.getLast?, isSep c = true

/-- The first character, if there is one, is a separator. -/
def BeginsSep (t : Text) : Prop := ∀ c ∈ t.head?, isSep c = true

/-- The name of a file: no separator and no colon. -/
def IsFileName (n : Text) : Prop := n ≠ [] ∧ ∀ c ∈ n, isSep c = false ∧ c ≠ ':'

theorem IsFileName.head {n : Text} (h : IsFileName n) :
    ∃ a t, n = a :: t ∧ isSep a = false ∧ a ≠ ':' := by
  obtain ⟨a, t, rfl⟩ := List.exists_cons_of_ne_nil h.1
  exact ⟨a, t, rfl, h.2 a (by simp)⟩

theorem beforeLast_append {q n : Text} (hq : EndsSep q) (hn : ∀ c ∈ n, isSep c = false) :
    beforeLast (q ++ n) = q := by
  have hstop : Regex.Stops (fun c => !isSep c) q.reverse := by
    intro c hc
    simpa using hq c (by simpa using hc)
  rw [beforeLast, Text.rstrip, List.rdropWhile, List.reverse_append,
    Regex.dropWhile_append_of_stops (fun c hc => by simpa using hn c (by simpa using hc)) hstop,
    List.reverse_reverse]

theorem lastComponent_append {q n : Text} (hq : EndsSep q) (hn : ∀ c ∈ n, isSep c = false) :
    lastComponent (q ++ n) = n := by
  have hstop : Regex.Stops (fun c => !isSep c) q.reverse := by
    intro c hc
    simpa using hq c (by simpa using hc)
  rw [lastComponent, List.rtakeWhile, List.reverse_append,
    Regex.takeWhile_append_of_stops (fun c hc => by simpa using hn c (by simpa using hc)) hstop,
    List.reverse_reverse]

theorem stripSeps_ne_nil {q : Text} (h : q ≠ []) : stripSeps q ≠ [] := by
  rw [stripSeps]
  split
  case isTrue => exact h
  case isFalse hne => exact hne

theorem stripSeps_prefix (q : Text) : stripSeps q <+: q := by
  rw [stripSeps]
  split
  case isTrue => exact List.prefix_rfl
  case isFalse => exact List.rdropWhile_prefix _ _

/-- A separator behind a path does not change its stripped form. -/
theorem stripSeps_append_sep (t : Text) (ht : t ≠ []) (hlast : ¬ EndsSep t) :
    stripSeps (t ++ ['\\']) = t := by
  have hstrip : Text.rstrip isSep (t ++ ['\\']) = t := by
    rw [Text.rstrip, List.rdropWhile_concat_pos _ _ _ rfl, List.rdropWhile_eq_self_iff]
    intro hne hsep
    apply hlast
    intro c hc
    rw [List.getLast?_eq_getLast_of_ne_nil hne] at hc
    rwa [← Option.some.inj hc]
  rw [stripSeps, hstrip, if_neg ht]

theorem stripSeps_stripSeps (t : Text) : stripSeps (stripSeps t) = stripSeps t := by
  by_cases h : Text.rstrip isSep t = []
  · have hself : stripSeps t = t := if_pos h
    rw [hself, hself]
  · have hself : stripSeps t = Text.rstrip isSep t := if_neg h
    rw [hself, stripSeps, Text.rstrip, Text.rstrip, List.rdropWhile_idempotent, ite_self]

/-! ## Drives -/

/-- A path without a drive: its second character is no colon, and if it begins
with two separators, then no share of a host follows. -/
def NoDrive (t : Text) : Prop :=
  ∀ a b rest, t = a :: b :: rest → b ≠ ':' ∧
    (isSep a = true → isSep b = true → (∃ s rest', rest = s :: rest' ∧ isSep s = true) ∨
      ∃ host s s' rest', rest = host ++ s :: s' :: rest' ∧ (∀ c ∈ host, isSep c = false) ∧
        isSep s = true ∧ isSep s' = true ∧ ∃ c ∈ rest', isSep c = false)

/-- A directory, as a drive and the path behind it. The drive is a letter with
a colon, the share of a host, or missing. -/
inductive Rooted : Text → Text → Prop
  | letter (a : Char) (p : Text) : Rooted [a, ':'] p
  | share (a b s : Char) (host share p : Text) (ha : isSep a = true) (hb : isSep b = true)
      (hs : isSep s = true) (hhost : ∀ c ∈ host, isSep c = false) (hne : host ≠ [])
      (hshare : ∀ c ∈ share, isSep c = false ∧ c ≠ ':') (hne' : share ≠ [])
      (hp : BeginsSep p) : Rooted (a :: b :: (host ++ s :: share)) p
  | noDrive (p : Text) (hne : p ≠ []) (h : NoDrive p) : Rooted [] p

theorem splitDrive_letter (a : Char) (p : Text) : splitDrive (a :: ':' :: p) = ([a, ':'], p) := by
  have hsep : isSep ':' = false := rfl
  simp [splitDrive, hsep]

theorem splitDrive_share {a b s : Char} {host share p : Text} (ha : isSep a = true)
    (hb : isSep b = true) (hs : isSep s = true) (hhost : ∀ c ∈ host, isSep c = false)
    (hne : host ≠ []) (hshare : ∀ c ∈ share, isSep c = false ∧ c ≠ ':') (hne' : share ≠ [])
    (hp : BeginsSep p) :
    splitDrive (a :: b :: (host ++ s :: share) ++ p) = (a :: b :: (host ++ s :: share), p) := by
  have hstop : Regex.Stops (fun c => !isSep c) (s :: (share ++ p)) := by
    simpa using hs
  have hstop' : Regex.Stops (fun c => !isSep c) p := by
    intro c hc
    simpa using hp c hc
  have hhost' : ∀ c ∈ host, (!isSep c) = true := fun c hc => by simpa using hhost c hc
  have hshare' : ∀ c ∈ share, (!isSep c) = true := fun c hc => by simpa using (hshare c hc).1
  obtain ⟨h, t, rfl⟩ := List.exists_cons_of_ne_nil hne
  obtain ⟨h', t', rfl⟩ := List.exists_cons_of_ne_nil hne'
  have hh : isSep h = false := hhost h (by simp)
  have hh' : isSep h' = false := (hshare h' (by simp)).1
  have hafter : afterComponent (h :: t ++ s :: (h' :: t' ++ p)) = s :: (h' :: t' ++ p) :=
    Regex.dropWhile_append_of_stops hhost' hstop
  have hcomponent : component (h :: t ++ s :: (h' :: t' ++ p)) = h :: t :=
    Regex.takeWhile_append_of_stops hhost' hstop
  have hafter' : afterComponent (h' :: t' ++ p) = p :=
    Regex.dropWhile_append_of_stops hshare' hstop'
  have hcomponent' : component (h' :: t' ++ p) = h' :: t' :=
    Regex.takeWhile_append_of_stops hshare' hstop'
  have hshape : a :: b :: (h :: t ++ s :: h' :: t') ++ p =
      a :: b :: (h :: t ++ s :: (h' :: t' ++ p)) := by simp
  rw [hshape, splitDrive, if_pos (by simp [ha, hb, hh]), splitUnc, hafter]
  simp only
  rw [if_neg (by simp [hh']), hcomponent, hafter', hcomponent']

theorem splitDrive_of_noDrive {t : Text} (h : NoDrive t) : splitDrive t = ([], t) := by
  match t, h with
  | [], _ => rfl
  | [c], _ => rfl
  | a :: b :: rest, h =>
      obtain ⟨hb, hsep⟩ := h a b rest rfl
      rw [splitDrive, if_neg hb]
      split
      case isFalse => rfl
      case isTrue hunc =>
        simp only [Bool.and_eq_true] at hunc
        obtain ⟨⟨ha, hb'⟩, hrest⟩ := hunc
        rcases hsep ha hb' with ⟨s, rest', rfl, hs⟩ | ⟨host, s, s', rest', rfl, hhost, hs, hs', -⟩
        · simp [hs] at hrest
        · have hafter : afterComponent (host ++ s :: s' :: rest') = s :: s' :: rest' :=
            Regex.dropWhile_append_of_stops (fun c hc => by simpa using hhost c hc)
              (by simpa using hs)
          rw [splitUnc, hafter]
          simp [hs']

/-- A path without a drive keeps having none when it is continued behind a
separator. -/
theorem NoDrive.append {t x : Text} (h : NoDrive t) (hne : t ≠ [])
    (hx : (EndsSep t ∧ IsFileName x) ∨ (¬ EndsSep t ∧ BeginsSep x ∧ x ≠ [])) :
    NoDrive (t ++ x) := by
  intro a b rest heq
  match t, h, hne with
  | [c], _, _ =>
      obtain ⟨rfl, rfl⟩ := List.cons.inj heq
      rcases hx with ⟨-, hname⟩ | ⟨hlast, hsep, -⟩
      · have hb := hname.2 b (by simp)
        exact ⟨hb.2, fun _ hsep => by rw [hb.1] at hsep; cases hsep⟩
      · have hb := hsep b rfl
        refine ⟨?_, fun ha => absurd ?_ hlast⟩
        · rintro rfl
          cases hb
        · intro d hd
          obtain rfl := Option.some.inj hd
          exact ha
  | c :: d :: t, h, _ =>
      obtain ⟨rfl, hrest⟩ := List.cons.inj heq
      obtain ⟨rfl, rfl⟩ := List.cons.inj hrest
      obtain ⟨hb, hsep⟩ := h c d t rfl
      refine ⟨hb, fun ha hb' => ?_⟩
      rcases hsep ha hb' with ⟨s, rest', rfl, hs⟩ |
        ⟨host, s, s', rest', rfl, hhost, hs, hs', e, he, hesep⟩
      · exact Or.inl ⟨s, rest' ++ x, rfl, hs⟩
      · exact Or.inr ⟨host, s, s', rest' ++ x, by simp, hhost, hs, hs', e, by simp [he], hesep⟩

/-- Trailing separators are not needed to see that a path has no drive. -/
theorem NoDrive.stripSeps {t : Text} (h : NoDrive t) : NoDrive (stripSeps t) := by
  rw [Python.stripSeps]
  split
  case isTrue => exact h
  case isFalse hne =>
    have hexists : ∃ c ∈ t, isSep c = false := by
      by_contra hall
      push Not at hall
      exact hne (List.rdropWhile_eq_nil_iff.mpr fun c hc => by simpa using hall c hc)
    intro a b rest heq
    obtain ⟨u, hu⟩ : ∃ u, t = a :: b :: u := by
      obtain ⟨v, hv⟩ := List.rdropWhile_prefix isSep t
      rw [← hv, ← Text.rstrip, heq]
      exact ⟨rest ++ v, rfl⟩
    obtain ⟨hb, hsep⟩ := h a b u hu
    refine ⟨hb, fun ha hb' => ?_⟩
    have hexists' : ∃ c ∈ u, isSep c = false := by
      obtain ⟨c, hc, hcsep⟩ := hexists
      rw [hu, List.mem_cons, List.mem_cons] at hc
      rcases hc with rfl | rfl | hc
      · rw [ha] at hcsep
        cases hcsep
      · rw [hb'] at hcsep
        cases hcsep
      · exact ⟨c, hc, hcsep⟩
    obtain rfl : rest = Text.rstrip isSep u := by
      have hstrip := rstrip_append_of_exists [a, b] hexists'
      rw [hu] at heq
      exact ((List.append_right_inj [a, b]).mp (hstrip.symm.trans heq)).symm
    rcases hsep ha hb' with ⟨s, rest', rfl, hs⟩ |
      ⟨host, s, s', rest', rfl, hhost, hs, hs', e, he, hesep⟩
    · left
      refine ⟨s, Text.rstrip isSep rest', ?_, hs⟩
      have hrest : ∃ c ∈ rest', isSep c = false := by
        obtain ⟨c, hc, hcsep⟩ := hexists'
        rcases List.mem_cons.mp hc with rfl | hc
        · rw [hs] at hcsep
          cases hcsep
        · exact ⟨c, hc, hcsep⟩
      exact rstrip_append_of_exists [s] hrest
    · right
      refine ⟨host, s, s', Text.rstrip isSep rest', ?_, hhost, hs, hs', ?_⟩
      · have hstrip := rstrip_append_of_exists (host ++ [s, s']) ⟨e, he, hesep⟩
        simpa using hstrip
      · by_contra hall
        push Not at hall
        have hlast : Text.rstrip isSep rest' ≠ [] := fun hnil => by
          have hsep := List.rdropWhile_eq_nil_iff.mp hnil e he
          rw [hesep] at hsep
          cases hsep
        have hmem := List.getLast_mem hlast
        exact List.rdropWhile_last_not _ _ hlast (by simpa [Text.rstrip] using hall _ hmem)

theorem Rooted.splitDrive {r p : Text} (h : Rooted r p) : splitDrive (r ++ p) = (r, p) := by
  cases h with
  | letter a p => exact splitDrive_letter a p
  | share a b s host share p ha hb hs hhost hne hshare hne' hp =>
      exact splitDrive_share ha hb hs hhost hne hshare hne' hp
  | noDrive p hne h => exact splitDrive_of_noDrive h

/-! ## Joining a name to a directory -/

/-- The directory that a path denotes: Windows has a directory of this path
only if it is not empty and any host in it comes with a share. -/
def IsDirPath (d : Text) : Prop := ∃ r p, d = r ++ p ∧ Rooted r p

/-- A path with a separator behind it, if it does not end in one. -/
def withSep (p : Text) : Text :=
  if p.getLast?.any fun c => !isSep c then p ++ ['\\'] else p

/-- What join puts between a drive and a name. -/
def between (r p : Text) : Text :=
  if withSep p = [] ∧ r ≠ [] ∧ r.getLast? ≠ some ':' then ['\\'] else withSep p

/-- The spelling of a directory that split finds in the paths of its files. -/
def dirKey (d : Text) : Text :=
  (splitDrive d).1 ++ stripSeps (between (splitDrive d).1 (splitDrive d).2)

theorem withSep_of_endsSep {p : Text} (h : EndsSep p) : withSep p = p := by
  rw [withSep, if_neg]
  rw [Option.any_eq_true]
  rintro ⟨c, hc, hsep⟩
  rw [h c hc] at hsep
  cases hsep

theorem withSep_of_not_endsSep {p : Text} (h : ¬ EndsSep p) : withSep p = p ++ ['\\'] := by
  rw [withSep, if_pos]
  rw [Option.any_eq_true]
  by_contra hall
  push Not at hall
  exact h fun c hc => by simpa using hall c hc

theorem endsSep_withSep (p : Text) : EndsSep (withSep p) := by
  by_cases h : EndsSep p
  · rwa [withSep_of_endsSep h]
  · rw [withSep_of_not_endsSep h]
    intro c hc
    obtain rfl : '\\' = c := by simpa using hc
    rfl

theorem withSep_eq_nil {p : Text} : withSep p = [] ↔ p = [] := by
  constructor
  · intro h
    by_cases hp : EndsSep p
    · rwa [withSep_of_endsSep hp] at h
    · simp [withSep_of_not_endsSep hp] at h
  · rintro rfl
    rfl

theorem endsSep_between (r p : Text) : EndsSep (between r p) := by
  rw [between]
  split
  case isTrue =>
    intro c hc
    obtain rfl : '\\' = c := by simpa using hc
    rfl
  case isFalse => exact endsSep_withSep p

theorem beginsSep_withSep {p : Text} (h : BeginsSep p) (hne : p ≠ []) :
    BeginsSep (withSep p) := by
  obtain ⟨c, t, rfl⟩ := List.exists_cons_of_ne_nil hne
  by_cases hp : EndsSep (c :: t)
  · rwa [withSep_of_endsSep hp]
  · rw [withSep_of_not_endsSep hp]
    exact h

/-- The separators in front of a name are kept when the stripped directory is
joined again. -/
theorem stripSeps_between (r p : Text) :
    stripSeps (between r (stripSeps (between r p))) = stripSeps (between r p) := by
  have hself : ∀ q : Text, stripSeps (withSep (stripSeps q)) = stripSeps q := by
    intro q
    by_cases hq : EndsSep (stripSeps q)
    · rw [withSep_of_endsSep hq, stripSeps_stripSeps]
    · have hne : stripSeps q ≠ [] := by
        intro hnil
        rw [hnil] at hq
        exact hq (by simp [EndsSep])
      rw [withSep_of_not_endsSep hq, stripSeps_append_sep _ hne hq]
  by_cases hr : r ≠ [] ∧ r.getLast? ≠ some ':'
  · have hne : between r p ≠ [] := by
      rw [between]
      split
      case isTrue => simp
      case isFalse h => exact fun hnil => h ⟨hnil, hr⟩
    have hbetween : between r (stripSeps (between r p)) = withSep (stripSeps (between r p)) := by
      rw [between, if_neg]
      rintro ⟨hnil, -⟩
      exact stripSeps_ne_nil hne (withSep_eq_nil.mp hnil)
    rw [hbetween, hself]
  · have hbetween : ∀ q, between r q = withSep q := fun q => if_neg fun h => hr h.2
    rw [hbetween, hself]

theorem splitDrive_fileName {n : Text} (hn : IsFileName n) : splitDrive n = ([], n) := by
  apply splitDrive_of_noDrive
  rintro a b rest rfl
  have ha := hn.2 a (by simp)
  refine ⟨(hn.2 b (by simp)).2, fun hsep => ?_⟩
  rw [ha.1] at hsep
  cases hsep

/-- A drive that does not end in a colon is followed by a separator. -/
theorem Rooted.beginsSep {r p : Text} (h : Rooted r p) (hne : r ≠ [])
    (hcolon : r.getLast? ≠ some ':') : BeginsSep p := by
  cases h with
  | letter a p => simp at hcolon
  | noDrive p _ _ => exact absurd rfl hne
  | share a b s host share p _ _ _ _ _ _ _ hp => exact hp

/-- A path that is read from wherever it is joined to. -/
def IsRelative (n : Text) : Prop := splitDrive n = ([], n) ∧ ∀ c ∈ n.head?, isSep c = false

theorem IsFileName.isRelative {n : Text} (h : IsFileName n) : IsRelative n :=
  ⟨splitDrive_fileName h, fun c hc => (h.2 c (List.mem_of_mem_head? hc)).1⟩

theorem join_of_isRelative {r p n : Text} (h : Rooted r p) (hn : IsRelative n) :
    join (r ++ p) n =
      if ((withSep p ++ n).head?.any fun c => !isSep c) && r ≠ [] && r.getLast? ≠ some ':'
      then r ++ '\\' :: (withSep p ++ n) else r ++ (withSep p ++ n) := by
  have hany : n.head?.any isSep = false := by
    rw [Option.any_eq_false]
    exact fun c hc => by simpa using hn.2 c hc
  rw [join, h.splitDrive, hn.1]
  simp [hany, withSep]

theorem join_eq {r p n : Text} (h : Rooted r p) (hn : IsRelative n) (hne : n ≠ []) :
    join (r ++ p) n = r ++ (between r p ++ n) := by
  rw [join_of_isRelative h hn]
  obtain ⟨a, t, rfl⟩ := List.exists_cons_of_ne_nil hne
  have ha : isSep a = false := hn.2 a rfl
  by_cases hr : r ≠ [] ∧ r.getLast? ≠ some ':'
  · rw [between]
    by_cases hnil : withSep p = []
    · simp [hnil, ha, hr.1, hr.2]
    · have hbegins := beginsSep_withSep (h.beginsSep hr.1 hr.2) fun h => hnil (withSep_eq_nil.mpr h)
      obtain ⟨c, u, hcu⟩ := List.exists_cons_of_ne_nil hnil
      have hc : isSep c = true := hbegins c (by simp [hcu])
      simp [hcu, hc]
  · have hbetween : between r p = withSep p := if_neg fun h => hr h.2
    rw [hbetween, if_neg]
    intro hcond
    simp only [Bool.and_eq_true, decide_eq_true_eq] at hcond
    exact hr ⟨hcond.1.2, hcond.2⟩

theorem getLast?_share {a b s : Char} {host share : Text}
    (hshare : ∀ c ∈ share, isSep c = false ∧ c ≠ ':') (hne : share ≠ []) :
    (a :: b :: (host ++ s :: share)).getLast? ≠ some ':' := by
  have hsuffix : a :: b :: (host ++ s :: share) = (a :: b :: (host ++ [s])) ++ share := by
    simp
  rw [hsuffix, List.getLast?_append_of_ne_nil _ hne]
  intro hcolon
  exact (hshare ':' (List.mem_of_getLast? hcolon)).2 rfl

/-- Behind the share of a host stands a separator. -/
theorem beginsSep_between {r p : Text} (hp : BeginsSep p) (hne : r ≠ [])
    (hcolon : r.getLast? ≠ some ':') : ∃ c u, between r p = c :: u ∧ isSep c = true := by
  by_cases hnil : withSep p = []
  · exact ⟨'\\', [], if_pos ⟨hnil, hne, hcolon⟩, rfl⟩
  · obtain ⟨c, u, hcu⟩ := List.exists_cons_of_ne_nil hnil
    have hbegins := beginsSep_withSep hp fun h => hnil (withSep_eq_nil.mpr h)
    exact ⟨c, u, (if_neg fun h => hnil h.1).trans hcu, hbegins c (by simp [hcu])⟩

/-- The path of a file keeps the drive of its directory. -/
theorem splitDrive_join {r p n : Text} (h : Rooted r p) (hn : IsFileName n) :
    splitDrive (r ++ (between r p ++ n)) = (r, between r p ++ n) := by
  cases h with
  | letter a p => exact splitDrive_letter a _
  | share a b s host share p ha hb hs hhost hne hshare hne' hp =>
      apply splitDrive_share ha hb hs hhost hne hshare hne'
      obtain ⟨c, u, hcu, hc⟩ := beginsSep_between hp (by simp) (getLast?_share hshare hne')
      rw [hcu]
      intro d hd
      obtain rfl : c = d := by simpa using hd
      exact hc
  | noDrive p hne h =>
      have hbetween : between [] p = withSep p := if_neg fun h => h.2.1 rfl
      rw [hbetween]
      apply splitDrive_of_noDrive
      by_cases hp : EndsSep p
      · rw [withSep_of_endsSep hp]
        exact h.append hne (Or.inl ⟨hp, hn⟩)
      · rw [withSep_of_not_endsSep hp, List.append_assoc]
        refine h.append hne (Or.inr ⟨hp, ?_, by simp⟩)
        intro c hc
        obtain rfl : '\\' = c := by simpa using hc
        rfl

/-- The stripped directory has the same drive. -/
theorem Rooted.stripSeps {r p : Text} (h : Rooted r p) :
    Rooted r (stripSeps (between r p)) := by
  cases h with
  | letter a p => exact .letter a _
  | share a b s host share p ha hb hs hhost hne hshare hne' hp =>
      refine .share a b s host share _ ha hb hs hhost hne hshare hne' ?_
      obtain ⟨c, u, hcu, hc⟩ := beginsSep_between hp (by simp) (getLast?_share hshare hne')
      rw [hcu]
      intro d hd
      obtain ⟨v, hv⟩ := stripSeps_prefix (c :: u)
      obtain ⟨e, w, hew⟩ := List.exists_cons_of_ne_nil (stripSeps_ne_nil (q := c :: u) (by simp))
      obtain rfl : e = d := by simpa [hew] using hd
      rw [hew] at hv
      rwa [(List.cons.inj hv).1]
  | noDrive p hne h =>
      have hbetween : between [] p = withSep p := if_neg fun h => h.2.1 rfl
      rw [hbetween]
      by_cases hp : EndsSep p
      · rw [withSep_of_endsSep hp]
        exact .noDrive _ (stripSeps_ne_nil hne) h.stripSeps
      · rw [withSep_of_not_endsSep hp, stripSeps_append_sep p hne hp]
        exact .noDrive p hne h

/-- The path of a file splits into the directory, in the spelling `dirKey`, and
the name. -/
theorem split_join {d n : Text} (hd : IsDirPath d) (hn : IsFileName n) :
    split (join d n) = (dirKey d, n) := by
  obtain ⟨r, p, rfl, h⟩ := hd
  have hsep : ∀ c ∈ n, isSep c = false := fun c hc => (hn.2 c hc).1
  rw [join_eq h hn.isRelative hn.1, split, splitDrive_join h hn, dirKey, h.splitDrive]
  simp only
  rw [beforeLast_append (endsSep_between r p) hsep, lastComponent_append (endsSep_between r p) hsep]

theorem join_append {d v e : Text} (hd : IsDirPath d) (hv : IsFileName v)
    (hve : IsFileName (v ++ e)) : join d v ++ e = join d (v ++ e) := by
  obtain ⟨r, p, rfl, h⟩ := hd
  rw [join_eq h hv.isRelative hv.1, join_eq h hve.isRelative hve.1]
  simp

theorem isDirPath_dirKey {d : Text} (hd : IsDirPath d) : IsDirPath (dirKey d) := by
  obtain ⟨r, p, rfl, h⟩ := hd
  rw [dirKey, h.splitDrive]
  exact ⟨r, _, rfl, h.stripSeps⟩

theorem dirKey_dirKey {d : Text} (hd : IsDirPath d) : dirKey (dirKey d) = dirKey d := by
  obtain ⟨r, p, rfl, h⟩ := hd
  have hkey : dirKey (r ++ p) = r ++ Python.stripSeps (between r p) := by
    rw [dirKey, h.splitDrive]
  rw [hkey, dirKey, h.stripSeps.splitDrive, stripSeps_between]

/-- The extension of a file behind its last dot is split off, if a character
other than a dot stands before it. -/
theorem splitExt_append (u v e : Text) (hv : ∀ c ∈ v, isSep c = false) (hdot : ∃ c ∈ v, c ≠ '.')
    (he : ∀ c ∈ e, isSep c = false ∧ c ≠ '.') :
    splitExt (u ++ (v ++ '.' :: e)) = (u ++ v, '.' :: e) := by
  have hreverse : (u ++ (v ++ '.' :: e)).reverse =
      e.reverse ++ '.' :: (v.reverse ++ u.reverse) := by simp
  have hall : ∀ c ∈ e.reverse, (decide (c ≠ '.') && !isSep c) = true := by
    intro c hc
    have hc' := he c (by simpa using hc)
    simp [hc'.1, hc'.2]
  have hstop : Regex.Stops (fun c => decide (c ≠ '.') && !isSep c)
      ('.' :: (v.reverse ++ u.reverse)) := by
    simp
  have hany : (((v.reverse ++ u.reverse).takeWhile fun c => !isSep c).any (· ≠ '.')) = true := by
    obtain ⟨c, hc, hcdot⟩ := hdot
    rw [List.takeWhile_append_of_pos fun d hd => by simpa using hv d (by simpa using hd),
      List.any_eq_true]
    exact ⟨c, by simp [hc], by simpa using hcdot⟩
  rw [splitExt, hreverse, Regex.dropWhile_append_of_stops hall hstop,
    Regex.takeWhile_append_of_stops hall hstop]
  simp only
  rw [if_pos hany]
  simp

/-- splitext on the path of a file finds the extension of its name. -/
theorem splitExt_join {d v e : Text} (hd : IsDirPath d) (hv : IsFileName v)
    (hdot : ∃ c ∈ v, c ≠ '.') (he : ∀ c ∈ e, isSep c = false ∧ c ≠ '.' ∧ c ≠ ':') :
    (splitExt (join d (v ++ '.' :: e))).1 = join d v := by
  obtain ⟨r, p, rfl, h⟩ := hd
  have hname : IsFileName (v ++ '.' :: e) := by
    refine ⟨by simp, ?_⟩
    intro c hc
    rcases List.mem_append.mp hc with hc | hc
    · exact hv.2 c hc
    · rcases List.mem_cons.mp hc with rfl | hc
      · exact ⟨rfl, by decide⟩
      · exact ⟨(he c hc).1, (he c hc).2.2⟩
  have hext := splitExt_append (r ++ between r p) v e (fun c hc => (hv.2 c hc).1) hdot
    fun c hc => ⟨(he c hc).1, (he c hc).2.1⟩
  rw [join_eq h hname.isRelative hname.1, join_eq h hv.isRelative hv.1, ← List.append_assoc, hext, List.append_assoc]

/-- splitext looks at nothing but the last component. -/
theorem splitExt_append_of_endsSep {q n : Text} (hq : EndsSep q)
    (hn : ∀ c ∈ n, isSep c = false) :
    splitExt (q ++ n) = (q ++ (splitExt n).1, (splitExt n).2) := by
  have hstop : ∀ p : Char → Bool, (∀ c, isSep c = true → p c = false) → Regex.Stops p q.reverse := by
    intro p hp c hc
    rw [List.head?_reverse] at hc
    exact hp c (hq c hc)
  obtain ⟨w, rest, hw, hall, hrest⟩ :=
    Regex.exists_run_append (fun c => decide (c ≠ '.') && !isSep c) n.reverse
  have hreverse : (q ++ n).reverse = w ++ (rest ++ q.reverse) := by
    rw [List.reverse_append, hw, List.append_assoc]
  cases rest with
  | nil =>
      have hq' := hstop (fun c => decide (c ≠ '.') && !isSep c) (by simp +contextual)
      rw [List.append_nil] at hw
      have hname : splitExt n = (n, []) := by
        rw [splitExt, hw, List.dropWhile_eq_nil_iff.mpr hall]
      rw [hname, splitExt, hreverse, List.nil_append, Regex.dropWhile_append_of_stops hall hq']
      cases hlast : q.reverse with
      | nil => rfl
      | cons c t =>
          have hsep : isSep c = true := hq c (by rw [← List.head?_reverse, hlast]; rfl)
          split
          case h_1 before heq =>
            obtain ⟨rfl, -⟩ := List.cons.inj heq
            exact absurd hsep (by decide)
          case h_2 => rfl
  | cons c before =>
      have hmem : ∀ d ∈ c :: before, isSep d = false := by
        intro d hd
        refine hn d (List.mem_reverse.mp ?_)
        rw [hw]
        exact List.mem_append_right _ hd
      obtain rfl : c = '.' := by
        rw [Regex.stops_cons] at hrest
        simpa [hmem c (by simp)] using hrest
      have hdot : Regex.Stops (fun c => decide (c ≠ '.') && !isSep c)
          ('.' :: (before ++ q.reverse)) := by
        simp
      have hcomponent : (before ++ q.reverse).takeWhile (fun c => !isSep c) =
          before.takeWhile fun c => !isSep c := by
        have hbefore : ∀ d ∈ before, (!isSep d) = true := by
          intro d hd
          rw [hmem d (List.mem_cons_of_mem _ hd)]
          rfl
        rw [Regex.takeWhile_append_of_stops hbefore (hstop _ (by simp)),
          List.takeWhile_eq_self_iff.mpr hbefore]
      rw [splitExt, splitExt, hreverse, hw, List.cons_append,
        Regex.dropWhile_append_of_stops hall hdot, Regex.takeWhile_append_of_stops hall hdot,
        Regex.dropWhile_append_of_stops hall hrest, Regex.takeWhile_append_of_stops hall hrest]
      simp only
      rw [hcomponent]
      split <;> simp

/-- The root of a name is a name. -/
theorem isFileName_splitExt {n : Text} (hn : IsFileName n) : IsFileName (splitExt n).1 := by
  rw [splitExt]
  split
  case h_2 => exact hn
  case h_1 before heq =>
    split
    case isFalse => exact hn
    case isTrue hany =>
      obtain ⟨c, hc, -⟩ := List.any_eq_true.mp hany
      have hne : before ≠ [] := List.ne_nil_of_mem (List.takeWhile_subset _ hc)
      refine ⟨by simpa using hne, fun d hd => hn.2 d ?_⟩
      have hsuffix := (List.dropWhile_suffix (l := n.reverse)
        fun c => decide (c ≠ '.') && !isSep c).subset
      rw [heq] at hsuffix
      simpa using hsuffix (List.mem_cons_of_mem _ (List.mem_reverse.mp hd))

/-- splitext on the path of a file splits the name of the file. A directory that
is a bare drive is left out, where a dot at the beginning of the name would
count. -/
theorem splitExt_join_fileName {d n : Text} (hd : IsDirPath d) (hpath : (splitDrive d).2 ≠ [])
    (hn : IsFileName n) : splitExt (join d n) = (join d (splitExt n).1, (splitExt n).2) := by
  have hroot := isFileName_splitExt hn
  obtain ⟨r, p, rfl, h⟩ := hd
  rw [h.splitDrive] at hpath
  have hends : EndsSep (r ++ between r p) := by
    have hne : between r p ≠ [] := by
      rw [between]
      split
      case isTrue => simp
      case isFalse => exact fun hnil => hpath (withSep_eq_nil.mp hnil)
    intro c hc
    rw [List.getLast?_append_of_ne_nil _ hne] at hc
    exact endsSep_between r p c hc
  have hext := splitExt_append_of_endsSep hends fun c hc => (hn.2 c hc).1
  rw [join_eq h hn.isRelative hn.1, join_eq h hroot.isRelative hroot.1, ← List.append_assoc, hext,
    List.append_assoc]

/-- The root of a name is made of dots alone only if the name is. -/
theorem exists_ne_dot_splitExt {n : Text} (hdot : ∃ c ∈ n, c ≠ '.') :
    ∃ c ∈ (splitExt n).1, c ≠ '.' := by
  rw [splitExt]
  split
  case h_2 => exact hdot
  case h_1 before heq =>
    split
    case isFalse => exact hdot
    case isTrue hany =>
      obtain ⟨c, hc, hcdot⟩ := List.any_eq_true.mp hany
      exact ⟨c, by simpa using List.takeWhile_subset _ hc, by simpa using hcdot⟩

/-! ## Components -/

/-- The components of a path. Adjacent separators count as one. -/
def pathComponents (p : Text) : List Text := (p.splitOnP isSep).filter (· ≠ [])

theorem pathComponents_nil : pathComponents [] = [] := rfl

theorem pathComponents_append (p q : Text) {s : Char} (hs : isSep s = true) :
    pathComponents (p ++ s :: q) = pathComponents p ++ pathComponents q := by
  rw [pathComponents, List.splitOnP_append_cons _ _ hs, List.filter_append]
  rfl

theorem pathComponents_concat (p : Text) {s : Char} (hs : isSep s = true) :
    pathComponents (p ++ [s]) = pathComponents p := by
  rw [pathComponents_append p [] hs, pathComponents_nil, List.append_nil]

theorem pathComponents_append_of_endsSep {p : Text} (hne : p ≠ []) (hp : EndsSep p) (q : Text) :
    pathComponents (p ++ q) = pathComponents p ++ pathComponents q := by
  obtain ⟨u, s, rfl⟩ : ∃ u s, p = u ++ [s] :=
    ⟨p.dropLast, p.getLast hne, (List.dropLast_append_getLast hne).symm⟩
  have hs : isSep s = true := hp s (by simp)
  rw [List.append_assoc, List.singleton_append, pathComponents_append _ _ hs,
    pathComponents_concat _ hs]

theorem pathComponents_append_withSep (r : Text) {p : Text} (hp : p ≠ []) (q : Text) :
    pathComponents (r ++ (withSep p ++ q)) = pathComponents (r ++ p) ++ pathComponents q := by
  by_cases hends : EndsSep p
  · rw [withSep_of_endsSep hends, ← List.append_assoc]
    apply pathComponents_append_of_endsSep (by simp [hp])
    intro c hc
    rw [List.getLast?_append_of_ne_nil _ hp] at hc
    exact hends c hc
  · rw [withSep_of_not_endsSep hends, List.append_assoc, List.singleton_append,
      ← List.append_assoc, pathComponents_append _ _ (by rfl)]

/-- Joining a relative path to a directory with a root appends its components. -/
theorem pathComponents_join {d q : Text} (hd : IsDirPath d)
    (hroot : ∀ a, d ≠ [a, ':']) (hq : IsRelative q) :
    pathComponents (join d q) = pathComponents d ++ pathComponents q := by
  obtain ⟨r, p, rfl, h⟩ := hd
  by_cases hnil : p = []
  · subst hnil
    have hr : r ≠ [] ∧ r.getLast? ≠ some ':' := by
      cases h with
      | letter a => exact absurd rfl (hroot a)
      | share a b s host share _ _ _ _ _ _ hshare hne' _ =>
          exact ⟨by simp, getLast?_share hshare hne'⟩
      | noDrive _ hne _ => exact absurd rfl hne
    rw [join_of_isRelative h hq, withSep_of_endsSep (p := []) (by simp [EndsSep])]
    cases q with
    | nil => simp [pathComponents_nil]
    | cons c q =>
        have hc : isSep c = false := hq.2 c rfl
        simp [hc, hr, pathComponents_append _ _ (show isSep '\\' = true from rfl)]
  · rw [join_of_isRelative h hq, if_neg, pathComponents_append_withSep r hnil]
    intro hcond
    simp only [Bool.and_eq_true, decide_eq_true_eq] at hcond
    have hbegins := beginsSep_withSep (h.beginsSep hcond.1.2 hcond.2) hnil
    obtain ⟨c, u, hcu⟩ := List.exists_cons_of_ne_nil fun h => hnil (withSep_eq_nil.mp h)
    have hc : isSep c = true := hbegins c (by simp [hcu])
    simp [hcu, hc] at hcond

end Python
