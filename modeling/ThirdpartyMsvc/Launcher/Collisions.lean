import ThirdpartyMsvc.Launcher.Writers
import Mathlib.Data.List.Nodup

/-!
# Colliding launchers

Every entry should end up with its launcher, with a .cmd file that starts this
launcher, and without a .exe file, and no other file of the directory should
change. The names of the .cmd and .exe files come from splitext, so an entry
whose name has an extension takes the files of the entry, or of the other
program, that is named like its root. `launchersInPlace_iff` says exactly when
that does no harm.
-/

namespace Launcher

open Python Store Text

/-- The command line in the text of a .cmd file starts the script `name`. -/
def Starts (t name : Text) : Prop := ∃ pre, t.splitOn '\n' = pre ++ [commandLine name, []]

/-- What the directory `d` should hold behind a run over the entries `es`. -/
structure LaunchersInPlace (d : Text) (rmExe : Bool) (es : List EntryPoint) (w w' : World) :
    Prop where
  script : ∀ e ∈ es, w'.file d e.name = some (.file (scriptText e))
  command : ∀ e ∈ es, ∃ t, w'.file d (cmdName e.name) = some (.file t) ∧ Starts t e.name
  removed : rmExe = true → ∀ e ∈ es, w'.file d (exeName e.name) = none
  kept : rmExe = false → ∀ e ∈ es, w'.file d (exeName e.name) = w.file d (exeName e.name)
  frame : ∀ k, (k.1 = dirKey d → ∀ e ∈ es,
    k.2 ≠ e.name ∧ k.2 ≠ cmdName e.name ∧ k.2 ≠ exeName e.name) → w'.nodes k = w.nodes k

/-- The last entry whose .cmd file is named after `s`. -/
def lastWithStem (es : List EntryPoint) (s : Text) : Option EntryPoint :=
  (es.filter fun e => stem e.name = s).getLast?

/-- No entry takes the files of another name for good. The .cmd file of an entry
comes from the entry itself, unless it was right before and nothing touches it;
and files that are named after no entry already are what the run makes them. -/
structure NoCollision (d : Text) (rmExe : Bool) (es : List EntryPoint) (w : World) : Prop where
  own : ∀ e ∈ es, lastWithStem es e.name = some e ∨
    (lastWithStem es e.name = none ∧
      (∃ t, w.file d (cmdName e.name) = some (.file t) ∧ Starts t e.name) ∧
      (rmExe = true → w.file d (exeName e.name) = none))
  foreign : ∀ s, s ∉ es.map EntryPoint.name → ∀ e, lastWithStem es s = some e →
    w.file d (cmdName s) = some (.file (cmdText e.name)) ∧
      (rmExe = true → w.file d (exeName s) = none)

theorem cmdName_inj {s t : Text} : cmdName s = cmdName t ↔ s = t :=
  List.append_left_inj _

theorem exeName_inj {s t : Text} : exeName s = exeName t ↔ s = t :=
  List.append_left_inj _

theorem cmdName_ne_exeName (s t : Text) : cmdName s ≠ exeName t := by
  intro h
  have hlast := congrArg List.getLast? h
  simp [cmdName, exeName] at hlast

/-- The text of a .cmd launcher starts the script it was written for. -/
theorem starts_cmdText_iff {m n : Text} (hm : '\n' ∉ m) : Starts (cmdText m) n ↔ m = n := by
  have hlines : (cmdText m).splitOn '\n' = cmdPreamble ++ [commandLine m, []] := by
    have hpreamble : ∀ l ∈ cmdPreamble, '\n' ∉ l := by
      unfold cmdPreamble
      simp
    rw [cmdText, splitOn_unlines]
    · simp
    · intro l hl
      rcases List.mem_append.mp hl with hl | hl
      · exact hpreamble l hl
      · obtain rfl := List.mem_singleton.mp hl
        unfold commandLine pyExecutable
        simp [hm]
  rw [Starts, hlines]
  constructor
  · rintro ⟨pre, hpre⟩
    have hline := (List.append_inj' hpre rfl).2
    exact commandLine_inj.mp (List.cons.inj hline).1
  · rintro rfl
    exact ⟨cmdPreamble, rfl⟩

/-! ## The last writes of a run -/

section last

variable {d : Text} {rmExe : Bool} {es : List EntryPoint}

/-- The files named like an entry are written by the entries of that name. -/
theorem lastPut_name (n : Text) (hcmd : ∀ s, n ≠ cmdName s) (hexe : ∀ s, n ≠ exeName s) :
    lastPut (es.flatMap (entryPuts d rmExe)) (d, n) =
      ((es.filter fun e => e.name = n).getLast?).map fun e =>
        ⟨(d, e.name), some (.file (scriptText e))⟩ := by
  apply lastPut_flatMap
  intro e _
  have hcmd' : ∀ s, cmdName s ≠ n := fun s h => hcmd s h.symm
  have hexe' : ∀ s, exeName s ≠ n := fun s h => hexe s h.symm
  cases rmExe with
  | false => by_cases hn : e.name = n <;> simp [entryPuts, hcmd', hn]
  | true => by_cases hn : e.name = n <;> simp [entryPuts, hcmd', hexe', hn]

/-- A .cmd file is written by the entries with its stem. -/
theorem lastPut_cmdName (s : Text) (hnames : ∀ e ∈ es, e.name ≠ cmdName s) :
    lastPut (es.flatMap (entryPuts d rmExe)) (d, cmdName s) =
      (lastWithStem es s).map fun e =>
        ⟨(d, cmdName (stem e.name)), some (.file (cmdText e.name))⟩ := by
  apply lastPut_flatMap
  intro e he
  have hname := hnames e he
  have hexe : ∀ t, exeName t ≠ cmdName s := fun t => (cmdName_ne_exeName s t).symm
  cases rmExe with
  | false => by_cases hs : stem e.name = s <;> simp [entryPuts, hname, cmdName_inj, hs]
  | true => by_cases hs : stem e.name = s <;> simp [entryPuts, hname, cmdName_inj, hexe, hs]

/-- A .exe file is removed by the entries with its stem, if at all. -/
theorem lastPut_exeName (s : Text) (hnames : ∀ e ∈ es, e.name ≠ exeName s) :
    lastPut (es.flatMap (entryPuts d rmExe)) (d, exeName s) =
      if rmExe then (lastWithStem es s).map fun e => ⟨(d, exeName (stem e.name)), none⟩
      else none := by
  have hcmd : ∀ t, cmdName t ≠ exeName s := fun t => cmdName_ne_exeName t s
  cases rmExe with
  | false =>
      have hnone : lastPut (es.flatMap (entryPuts d false)) (d, exeName s) =
          ((es.filter fun _ => false).getLast?).map fun e => ⟨(d, e.name), none⟩ := by
        apply lastPut_flatMap
        intro e he
        simp [entryPuts, hnames e he, hcmd]
      simpa using hnone
  | true =>
      rw [if_pos rfl]
      apply lastPut_flatMap
      intro e he
      by_cases hs : stem e.name = s <;>
        simp [entryPuts, hnames e he, hcmd, exeName_inj, hs]

/-- All other files are left alone. -/
theorem lastPut_other (k : Text × Text) (hnames : k.1 = d → ∀ e ∈ es, k.2 ≠ e.name)
    (hcmd : k.1 = d → ∀ s, k.2 ≠ cmdName s) (hexe : k.1 = d → ∀ s, k.2 ≠ exeName s) :
    lastPut (es.flatMap (entryPuts d rmExe)) k = none := by
  have hnone : lastPut (es.flatMap (entryPuts d rmExe)) k =
      ((es.filter fun _ => false).getLast?).map fun e => ⟨(d, e.name), none⟩ := by
    apply lastPut_flatMap
    intro e he
    have hkey : ∀ n, (k.1 = d → k.2 ≠ n) → (d, n) ≠ k := by
      rintro n hn rfl
      exact hn rfl rfl
    have h₁ := hkey _ fun h => hnames h e he
    have h₂ := hkey _ fun h => hcmd h (stem e.name)
    have h₃ := hkey _ fun h => hexe h (stem e.name)
    cases rmExe with
    | false => simp [entryPuts, h₁, h₂]
    | true => simp [entryPuts, h₁, h₂, h₃]
  simpa using hnone

end last

/-! ## When every launcher is in place -/

/-- The last of the entries with a name is the only one. -/
theorem getLast?_filter_name {es : List EntryPoint} (hnodup : (es.map EntryPoint.name).Nodup)
    {e : EntryPoint} (he : e ∈ es) :
    (es.filter fun e' => e'.name = e.name).getLast? = some e := by
  have hone : es.filter (fun e' => e'.name = e.name) = [e] := by
    induction es with
    | nil => cases he
    | cons a es ih =>
        rw [List.map_cons, List.nodup_cons] at hnodup
        rw [List.filter_cons]
        rcases List.mem_cons.mp he with rfl | he
        · have hnil : es.filter (fun e' => e'.name = e.name) = [] := by
            rw [List.filter_eq_nil_iff]
            intro e' he' hname
            apply hnodup.1
            rw [← of_decide_eq_true hname]
            exact List.mem_map_of_mem he'
          rw [if_pos (decide_eq_true rfl), hnil]
        · have hne : a.name ≠ e.name := by
            intro h
            exact hnodup.1 (h ▸ List.mem_map_of_mem he)
          rw [if_neg (by simpa using hne), ih hnodup.2 he]
  rw [hone]
  rfl

theorem mem_of_lastWithStem {es : List EntryPoint} {s : Text} {e : EntryPoint}
    (h : lastWithStem es s = some e) : e ∈ es :=
  List.mem_of_mem_filter (List.mem_of_getLast? h)

section inPlace

variable {d : Text} {rmExe : Bool} {es : List EntryPoint} {w w' : World}

theorem file_eq (hd : IsDirPath d) {n : Text} (hn : IsFileName n) :
    w.file d n = w.nodes (dirKey d, n) := by
  rw [World.file, split_join hd hn]

section outcome

variable (hnodes : w'.nodes = applyAll (es.flatMap (entryPuts (dirKey d) rmExe)) w.nodes)
  (hext : ∀ e ∈ es, ¬ ".cmd".toList <:+ e.name ∧ ¬ ".exe".toList <:+ e.name)

include hnodes hext

theorem nodes_name (hnodup : (es.map EntryPoint.name).Nodup) {e : EntryPoint} (he : e ∈ es) :
    w'.nodes (dirKey d, e.name) = some (.file (scriptText e)) := by
  rw [hnodes, applyAll_apply, lastPut_name, getLast?_filter_name hnodup he]
  · rfl
  · exact fun s hs => (hext e he).1 ⟨s, hs.symm⟩
  · exact fun s hs => (hext e he).2 ⟨s, hs.symm⟩

theorem nodes_cmdName (s : Text) :
    w'.nodes (dirKey d, cmdName s) = (lastWithStem es s).elim (w.nodes (dirKey d, cmdName s))
      fun e => some (.file (cmdText e.name)) := by
  rw [hnodes, applyAll_apply, lastPut_cmdName]
  · cases lastWithStem es s <;> rfl
  · exact fun e he hs => (hext e he).1 ⟨s, hs.symm⟩

theorem nodes_exeName (s : Text) :
    w'.nodes (dirKey d, exeName s) =
      if rmExe = true ∧ lastWithStem es s ≠ none then none
      else w.nodes (dirKey d, exeName s) := by
  rw [hnodes, applyAll_apply, lastPut_exeName]
  · cases rmExe with
    | false => rfl
    | true => cases lastWithStem es s <;> simp
  · exact fun e he hs => (hext e he).2 ⟨s, hs.symm⟩

end outcome

theorem nodes_other
    (hnodes : w'.nodes = applyAll (es.flatMap (entryPuts (dirKey d) rmExe)) w.nodes)
    {k : Text × Text} (hnames : k.1 = dirKey d → ∀ e ∈ es, k.2 ≠ e.name)
    (hcmd : k.1 = dirKey d → ∀ s, k.2 ≠ cmdName s)
    (hexe : k.1 = dirKey d → ∀ s, k.2 ≠ exeName s) : w'.nodes k = w.nodes k := by
  rw [hnodes, applyAll_apply, lastPut_other k hnames hcmd hexe]
  rfl

/-- The name of a stem that an entry has is the name of a file. -/
theorem isFileName_of_lastWithStem (hnames : ∀ e ∈ es, IsFileName e.name) {s : Text}
    {e : EntryPoint} (h : lastWithStem es s = some e) : IsFileName s := by
  have hmem := List.mem_of_getLast? h
  have hs : stem e.name = s := of_decide_eq_true (List.mem_filter.mp hmem).2
  rw [← hs]
  exact isFileName_splitExt (hnames e (mem_of_lastWithStem h))

/-- A sequence of the writes of the entries leaves every launcher in place
exactly when there is no collision. -/
theorem launchersInPlace_iff_of_nodes (hd : IsDirPath d)
    (hnames : ∀ e ∈ es, IsFileName e.name ∧ '\n' ∉ e.name)
    (hnodup : (es.map EntryPoint.name).Nodup)
    (hext : ∀ e ∈ es, ¬ ".cmd".toList <:+ e.name ∧ ¬ ".exe".toList <:+ e.name)
    (hnodes : w'.nodes = applyAll (es.flatMap (entryPuts (dirKey d) rmExe)) w.nodes) :
    LaunchersInPlace d rmExe es w w' ↔ NoCollision d rmExe es w := by
  have hfile : ∀ (v : World) {n}, IsFileName n → v.file d n = v.nodes (dirKey d, n) :=
    fun v n hn => file_eq hd hn
  have hcmdfile : ∀ (v : World) {n}, IsFileName n →
      v.file d (cmdName n) = v.nodes (dirKey d, cmdName n) :=
    fun v n hn => file_eq hd (isFileName_cmdName hn)
  have hexefile : ∀ (v : World) {n}, IsFileName n →
      v.file d (exeName n) = v.nodes (dirKey d, exeName n) :=
    fun v n hn => file_eq hd (isFileName_exeName hn)
  have hstem : ∀ {s e}, lastWithStem es s = some e → IsFileName s :=
    isFileName_of_lastWithStem fun e he => (hnames e he).1
  have hcmdframe : ∀ {s}, s ∉ es.map EntryPoint.name → ∀ e ∈ es,
      cmdName s ≠ e.name ∧ cmdName s ≠ cmdName e.name ∧ cmdName s ≠ exeName e.name := by
    intro s hs e he
    refine ⟨fun h => (hext e he).1 ⟨s, h⟩, fun h => hs ?_, cmdName_ne_exeName s e.name⟩
    rw [cmdName_inj.mp h]
    exact List.mem_map_of_mem he
  have hexeframe : ∀ {s}, s ∉ es.map EntryPoint.name → ∀ e ∈ es,
      exeName s ≠ e.name ∧ exeName s ≠ cmdName e.name ∧ exeName s ≠ exeName e.name := by
    intro s hs e he
    refine ⟨fun h => (hext e he).2 ⟨s, h⟩, (cmdName_ne_exeName e.name s).symm, fun h => hs ?_⟩
    rw [exeName_inj.mp h]
    exact List.mem_map_of_mem he
  constructor
  · intro h
    refine ⟨fun e he => ?_, fun s hs e hlast => ?_⟩
    · have hn := (hnames e he).1
      obtain ⟨t, ht, hstarts⟩ := h.command e he
      rw [hcmdfile w' hn, nodes_cmdName hnodes hext] at ht
      cases hlast : lastWithStem es e.name with
      | none =>
          rw [hlast, Option.elim_none, ← hcmdfile w hn] at ht
          refine Or.inr ⟨rfl, ⟨t, ht, hstarts⟩, fun hrm => ?_⟩
          have hremoved := h.removed hrm e he
          rwa [hexefile w' hn, nodes_exeName hnodes hext, if_neg (by simp [hlast]),
            ← hexefile w hn] at hremoved
      | some e' =>
          left
          rw [hlast, Option.elim_some] at ht
          obtain rfl := Node.file.inj (Option.some.inj ht)
          have he' := mem_of_lastWithStem hlast
          rw [starts_cmdText_iff (hnames e' he').2] at hstarts
          exact congrArg some (List.inj_on_of_nodup_map hnodup he' he hstarts)
    · have hfs := hstem hlast
      have hcmd := h.frame (dirKey d, cmdName s) fun _ => hcmdframe hs
      have hexe := h.frame (dirKey d, exeName s) fun _ => hexeframe hs
      rw [nodes_cmdName hnodes hext, hlast, Option.elim_some] at hcmd
      refine ⟨by rw [hcmdfile w hfs, ← hcmd], fun hrm => ?_⟩
      rw [nodes_exeName hnodes hext, if_pos ⟨hrm, by simp [hlast]⟩] at hexe
      rw [hexefile w hfs, ← hexe]
  · intro h
    refine ⟨fun e he => ?_, fun e he => ?_, fun hrm e he => ?_, fun hrm e he => ?_, ?_⟩
    · rw [hfile w' (hnames e he).1, nodes_name hnodes hext hnodup he]
    · rw [hcmdfile w' (hnames e he).1, nodes_cmdName hnodes hext]
      rcases h.own e he with hlast | ⟨hlast, hold, -⟩
      · rw [hlast, Option.elim_some]
        exact ⟨_, rfl, (starts_cmdText_iff (hnames e he).2).mpr rfl⟩
      · rw [hlast, Option.elim_none, ← hcmdfile w (hnames e he).1]
        exact hold
    · rw [hexefile w' (hnames e he).1, nodes_exeName hnodes hext]
      rcases h.own e he with hlast | ⟨hlast, -, hold⟩
      · rw [if_pos ⟨hrm, by simp [hlast]⟩]
      · rw [if_neg (by simp [hlast]), ← hexefile w (hnames e he).1]
        exact hold hrm
    · rw [hexefile w' (hnames e he).1, nodes_exeName hnodes hext, if_neg (by simp [hrm]),
        hexefile w (hnames e he).1]
    · rintro ⟨dir, f⟩ hk
      by_cases hf : dir = dirKey d ∧ ((∃ s, f = cmdName s) ∨ ∃ s, f = exeName s)
      case neg =>
        exact nodes_other hnodes (fun h e he => (hk h e he).1)
          (fun h s hs => hf ⟨h, Or.inl ⟨s, hs⟩⟩) (fun h s hs => hf ⟨h, Or.inr ⟨s, hs⟩⟩)
      case pos =>
        obtain ⟨rfl, ⟨s, rfl⟩ | ⟨s, rfl⟩⟩ := hf
        · have hs : s ∉ es.map EntryPoint.name := by
            intro hmem
            obtain ⟨e, he, rfl⟩ := List.mem_map.mp hmem
            exact (hk rfl e he).2.1 rfl
          rw [nodes_cmdName hnodes hext]
          cases hlast : lastWithStem es s with
          | none => rfl
          | some e =>
              have hold := (h.foreign s hs e hlast).1
              rw [hcmdfile w (hstem hlast)] at hold
              exact hold.symm
        · have hs : s ∉ es.map EntryPoint.name := by
            intro hmem
            obtain ⟨e, he, rfl⟩ := List.mem_map.mp hmem
            exact (hk rfl e he).2.2 rfl
          rw [nodes_exeName hnodes hext]
          split
          case isFalse => rfl
          case isTrue hrm =>
            obtain ⟨e, hlast⟩ := Option.ne_none_iff_exists'.mp hrm.2
            have hold := (h.foreign s hs e hlast).2 hrm.1
            rw [hexefile w (hstem hlast)] at hold
            exact hold.symm

end inPlace

theorem isFileName_of_isNameChar {T : CharTable} {n : Text} (hne : n ≠ [])
    (h : ∀ c ∈ n, isNameChar T c = true) : IsFileName n ∧ '\n' ∉ n := by
  have hascii : ∀ c : Char, c.toNat < 128 → (c.isAlphanum || c == '_') = false →
      (c == '-' || c == '.' || c == '+') = false → c ∉ n := by
    intro c hc hword hother hmem
    have hname := h c hmem
    rw [isNameChar, T.word_of_ascii hc false hword, hother] at hname
    cases hname
  refine ⟨⟨hne, fun c hc => ⟨?_, ?_⟩⟩, hascii '\n' (by decide) (by decide) (by decide)⟩
  · by_contra hsep
    rw [Bool.not_eq_false, isSep, Bool.or_eq_true, beq_iff_eq, beq_iff_eq] at hsep
    rcases hsep with rfl | rfl
    · exact hascii '\\' (by decide) (by decide) (by decide) hc
    · exact hascii '/' (by decide) (by decide) (by decide) hc
  · rintro rfl
    exact hascii ':' (by decide) (by decide) (by decide) hc

/-- For every entry-point file whose names are distinct and have neither of the
two extensions, and every directory that exists, a run that finishes leaves
every launcher in place exactly when there is no collision. -/
theorem launchersInPlace_iff (T : CharTable) (text d : Text) (rmExe : Bool)
    {es : List EntryPoint} {w w' : World} (hes : getEntryPoints T text = .ok es)
    (hd : w.dirs d = true) (hnodup : (es.map EntryPoint.name).Nodup)
    (hext : ∀ e ∈ es, ¬ ".cmd".toList <:+ e.name ∧ ¬ ".exe".toList <:+ e.name)
    (hrun : writeConsoleScripts T text d rmExe w = (.ok (), w')) :
    LaunchersInPlace d rmExe es w w' ↔ NoCollision d rmExe es w := by
  have hnames : ∀ e ∈ es, IsFileName e.name ∧ '\n' ∉ e.name := by
    intro e he
    obtain ⟨hne, hchars⟩ := name_of_mem_getEntryPoints hes he
    exact isFileName_of_isNameChar hne hchars
  rw [writeConsoleScripts, hes] at hrun
  obtain ⟨-, hnodes⟩ := writeAll_ok es (fun e he => (hnames e he).1) hd hrun
  exact launchersInPlace_iff_of_nodes (w.rooted d hd) hnames hnodup hext hnodes

/-- An empty directory `C:\S`, and nothing else. -/
def emptyScripts : World where
  nodes k := if k = (['C', ':', '\\'], ['S']) then some .directory else none
  dirs d := d == ['C', ':', '\\', 'S']
  rooted d hd := by
    rw [beq_iff_eq.mp hd]
    exact ⟨['C', ':'], ['\\', 'S'], rfl, .letter 'C' _⟩
  spelling d hd := by
    rw [beq_iff_eq.mp hd]
    decide
  dir_node d hd _ := by
    rw [beq_iff_eq.mp hd]
    decide

def fooText : Text := "[console_scripts]\nfoo = bar:baz\n".toList

/-- The files behind a run over a text, from the empty directory. -/
def scriptsAfter (text : Text) : World :=
  (writeConsoleScripts .ascii text ['C', ':', '\\', 'S'] true emptyScripts).2

theorem launchersInPlace_foo :
    LaunchersInPlace ['C', ':', '\\', 'S'] true
      [⟨"foo".toList, "bar".toList, "baz".toList⟩] emptyScripts (scriptsAfter fooText) ↔
    NoCollision ['C', ':', '\\', 'S'] true
      [⟨"foo".toList, "bar".toList, "baz".toList⟩] emptyScripts := by
  have hes : getEntryPoints .ascii fooText =
      .ok [⟨"foo".toList, "bar".toList, "baz".toList⟩] := by
    decide +kernel
  have hok : (writeConsoleScripts .ascii fooText ['C', ':', '\\', 'S'] true emptyScripts).1 =
      .ok () := by
    rw [writeConsoleScripts, hes]
    decide +kernel
  have hpair : ∀ x : Except Exc Unit × World, x.1 = .ok () → x = (.ok (), x.2) :=
    fun x hx => Prod.ext hx rfl
  have hd : emptyScripts.dirs ['C', ':', '\\', 'S'] = true := by
    decide
  unfold scriptsAfter
  exact launchersInPlace_iff .ascii fooText _ true hes hd (by simp) (by decide) (hpair _ hok)

/-- The entry points of setuptools. -/
def easyInstallText : Text :=
  "[console_scripts]
easy_install = setuptools.command.easy_install:main
easy_install-3.6 = setuptools.command.easy_install:main
".toList

/-- The .cmd file of easy_install-3.6 is written under the name
easy_install-3.cmd. -/
theorem not_launchersInPlace_easy_install :
    (writeConsoleScripts .ascii easyInstallText ['C', ':', '\\', 'S'] true emptyScripts).1 =
      .ok () ∧
    ∃ es, getEntryPoints .ascii easyInstallText = .ok es ∧
      es.map EntryPoint.name = ["easy_install".toList, "easy_install-3.6".toList] ∧
      ¬ LaunchersInPlace ['C', ':', '\\', 'S'] true es emptyScripts
        (scriptsAfter easyInstallText) := by
  have hes : getEntryPoints .ascii easyInstallText =
      .ok [⟨"easy_install".toList, "setuptools.command.easy_install".toList, "main".toList⟩,
        ⟨"easy_install-3.6".toList, "setuptools.command.easy_install".toList,
          "main".toList⟩] := by
    decide +kernel
  have hnone : (scriptsAfter easyInstallText).file ['C', ':', '\\', 'S']
      (cmdName "easy_install-3.6".toList) = none := by
    rw [scriptsAfter, writeConsoleScripts, hes]
    decide +kernel
  refine ⟨by rw [writeConsoleScripts, hes]; decide +kernel, _, hes, rfl, ?_⟩
  intro h
  obtain ⟨t, ht, -⟩ := h.command _ (List.mem_cons_of_mem _ (List.mem_singleton_self _))
  rw [hnone] at ht
  cases ht

end Launcher
