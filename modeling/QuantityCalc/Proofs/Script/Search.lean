import QuantityCalc.Proofs.Run.Outcome
import QuantityCalc.Session.Scripts
import Mathlib.Data.List.TakeWhile

/-!
# The search for a script

A script is the first regular file in the order of the places at which it is looked for
(`Session.outcome_firstFile?`): in each directory first under its name as given, and then under its
name with the extension of scripts. The second spelling is the name followed by the extension if and
only if the name is bare: the last segment of its path is a file name without an extension
(`Path.withExtension_eq_append_iff`). In any other name the extension is exchanged for that of
scripts, or there is no file name to extend.
-/

namespace QuantityCalc

namespace Path

variable {t w extension : Text}

/-! ## File names -/

theorem dropTrail_suffix (t : Text) : dropTrail t <:+ t := by
  fun_induction dropTrail t with
  | case1 t ih => exact ih.trans (List.suffix_cons _ _)
  | case2 t ih => exact ih.trans (List.suffix_cons _ _)
  | case3 t => exact List.suffix_refl t

/-- Slashes and single dots are dropped if there are any. -/
theorem dropTrail_eq_self_iff :
    dropTrail t = t ↔ (∀ u, t ≠ '/' :: u) ∧ ∀ u, t ≠ '.' :: '/' :: u := by
  constructor
  · intro h
    refine ⟨?_, ?_⟩
    · rintro u rfl
      have hle := (dropTrail_suffix u).length_le
      rw [dropTrail] at h
      rw [h, List.length_cons] at hle
      omega
    · rintro u rfl
      have hle := (dropTrail_suffix ('/' :: u)).length_le
      rw [dropTrail.eq_2] at h
      rw [h, List.length_cons] at hle
      omega
  · rintro ⟨hslash, hdot⟩
    exact dropTrail.eq_3 t hslash hdot

/-- A text read backwards is cut in front of its last character of a kind. -/
theorem reverse_dropWhile_append (kind : Char → Bool) (t : Text) :
    (t.dropWhile kind).reverse ++ (t.takeWhile kind).reverse = t.reverse := by
  rw [← List.reverse_append, List.takeWhile_append_dropWhile]

/-- The extension of a file name follows its last dot, unless that is its first character. -/
theorem splitExtension_cases (w : Text) :
    (splitExtension w = (w, none) ∧ '.' ∉ w.tail) ∨
      ∃ stem last, splitExtension w = (stem, some last) ∧ w = stem ++ '.' :: last ∧ stem ≠ [] := by
  have hw : w = (w.reverse.dropWhile (· ≠ '.')).reverse ++
      (w.reverse.takeWhile (· ≠ '.')).reverse := by
    rw [reverse_dropWhile_append, List.reverse_reverse]
  have hlast : '.' ∉ (w.reverse.takeWhile (· ≠ '.')).reverse := fun hmem => by
    simpa using List.mem_takeWhile_imp (List.mem_reverse.1 hmem)
  have hnone (h : (w.reverse.dropWhile (· ≠ '.')).reverse.dropLast = []) :
      splitExtension w = (w, none) := by
    rw [splitExtension, h]
  cases hdrop : w.reverse.dropWhile (· ≠ '.') with
  | nil =>
    refine .inl ⟨hnone (by rw [hdrop]; rfl), fun hmem => hlast ?_⟩
    rw [hdrop] at hw
    rw [hw] at hmem
    exact List.mem_of_mem_tail hmem
  | cons c front =>
    have hc : c = '.' := by
      have hnot := List.head?_dropWhile_not (· ≠ '.') w.reverse
      rw [hdrop] at hnot
      simpa using hnot
    rw [hdrop, hc, List.reverse_cons] at hw
    cases front with
    | nil =>
      refine .inl ⟨hnone (by rw [hdrop]; rfl), fun hmem => hlast ?_⟩
      rw [hw] at hmem
      simpa using hmem
    | cons d front =>
      rw [List.append_assoc, List.singleton_append] at hw
      refine .inr ⟨_, _, ?_, hw, by simp⟩
      have hstem : (w.reverse.dropWhile (· ≠ '.')).reverse.dropLast = (d :: front).reverse := by
        rw [hdrop, List.reverse_cons, List.dropLast_concat]
      simp only [splitExtension, hstem]
      split
      · rename_i hnil
        simp at hnil
      · rfl

/-! ## Paths with an extension behind -/

/-- The last segment of a path. -/
def lastSegment (t : Text) : Text := (t.reverse.takeWhile (· ≠ '/')).reverse

/-- The last segment of a path is a file name without an extension. -/
structure IsBare (t : Text) : Prop where
  ne_nil : lastSegment t ≠ []
  ne_dot : lastSegment t ≠ ['.']
  notMem : '.' ∉ (lastSegment t).tail

theorem split?_of_isBare (h : IsBare t) :
    ∃ before, split? t = some ⟨before, lastSegment t, []⟩ ∧ t = before ++ lastSegment t := by
  have hkept : dropTrail t.reverse = t.reverse := by
    refine dropTrail_eq_self_iff.2 ⟨fun u hu => h.ne_nil ?_, fun u hu => h.ne_dot ?_⟩
    · rw [lastSegment, hu]
      rfl
    · rw [lastSegment, hu]
      rfl
  have hdots : lastSegment t ≠ ['.', '.'] := fun hdots => h.notMem (by simp [hdots])
  refine ⟨(t.reverse.dropWhile (· ≠ '/')).reverse, ?_, ?_⟩
  · simp only [split?, hkept]
    rw [← lastSegment, if_neg (by simp [h.ne_nil, h.ne_dot, hdots]), List.length_reverse,
      List.drop_length]
  · rw [lastSegment, reverse_dropWhile_append, List.reverse_reverse]

theorem eq_append_of_split? {p : Parts} (h : split? t = some p) :
    t = p.before ++ p.fileName ++ p.after := by
  simp only [split?, Option.ite_none_left_eq_some, Option.some.injEq] at h
  obtain ⟨-, rfl⟩ := h
  obtain ⟨used, hused⟩ := dropTrail_suffix t.reverse
  have ht : t = (dropTrail t.reverse).reverse ++ used.reverse := by
    rw [← List.reverse_append, hused, List.reverse_reverse]
  have hafter : t.drop (dropTrail t.reverse).length = used.reverse :=
    (congrArg (List.drop _) ht).trans (List.drop_left' (List.length_reverse ..))
  simp only [hafter]
  rw [reverse_dropWhile_append, ← ht]

theorem isBare_of_split? {p : Parts} (h : split? t = some p) (hafter : p.after = [])
    (hdot : '.' ∉ p.fileName.tail) : IsBare t := by
  simp only [split?, Option.ite_none_left_eq_some, Bool.or_eq_true, not_or, Option.some.injEq] at h
  obtain ⟨⟨⟨hne, hone⟩, -⟩, rfl⟩ := h
  have hkept : dropTrail t.reverse = t.reverse := by
    refine (dropTrail_suffix t.reverse).eq_of_length_le ?_
    rw [List.length_reverse]
    exact List.drop_eq_nil_iff.1 hafter
  simp only [hkept] at hne hone hdot
  exact ⟨by simpa [lastSegment] using hne, by simpa [lastSegment] using hone, hdot⟩

theorem withExtension_of_none {p : Parts} (hsplit : split? t = some p)
    (hnone : splitExtension p.fileName = (p.fileName, none)) :
    withExtension extension t = p.before ++ p.fileName ++ '.' :: extension := by
  simp only [withExtension, hsplit, hnone]
  split
  · rename_i heq
    cases congrArg Prod.snd heq
  · rename_i heq
    cases heq
    rfl

/-- What is put in the place of an extension makes a path shorter than both one behind the other. -/
theorem length_withExtension_lt (extension : Text) {p : Parts} {stem last : Text}
    (hsplit : split? t = some p) (hsome : splitExtension p.fileName = (stem, some last))
    (hname : p.fileName = stem ++ '.' :: last) :
    (withExtension extension t).length < t.length + 1 + extension.length := by
  have ht := congrArg List.length (eq_append_of_split? hsplit)
  rw [hname] at ht
  simp only [List.length_append, List.length_cons] at ht
  simp only [withExtension, hsplit, hsome]
  split
  · rename_i heq
    have hstem : stem = ['.'] := congrArg Prod.fst heq
    rw [hstem] at ht
    split <;> simp only [List.length_append, List.length_cons, List.length_nil] at ht ⊢ <;> omega
  · rename_i heq
    cases heq
    simp only [List.length_append, List.length_cons]
    omega

/-- **The extension of a path is put behind it** if and only if the path is bare. -/
theorem withExtension_eq_append_iff :
    withExtension extension t = t ++ '.' :: extension ↔ IsBare t := by
  constructor
  · intro h
    have hlength := congrArg List.length h
    rw [List.length_append, List.length_cons] at hlength
    cases hsplit : split? t with
    | none =>
      simp only [withExtension, hsplit] at hlength
      omega
    | some p =>
      rcases splitExtension_cases p.fileName with ⟨hnone, hdot⟩ | ⟨stem, last, hsome, hname, -⟩
      · have ht := congrArg List.length (eq_append_of_split? hsplit)
        rw [withExtension_of_none hsplit hnone] at hlength
        simp only [List.length_append, List.length_cons] at hlength ht
        exact isBare_of_split? hsplit (List.eq_nil_of_length_eq_zero (by omega)) hdot
      · have hlt := length_withExtension_lt extension hsplit hsome hname
        omega
  · intro h
    obtain ⟨before, hsplit, ht⟩ := split?_of_isBare h
    have hnone : splitExtension (lastSegment t) = (lastSegment t, none) := by
      rcases splitExtension_cases (lastSegment t) with ⟨hnone, -⟩ | ⟨stem, last, -, hname, hstem⟩
      · exact hnone
      · refine absurd ?_ h.notMem
        rw [hname, List.tail_append_of_ne_nil hstem]
        simp
    rw [withExtension_of_none hsplit hnone, ← ht]

end Path

namespace Session

variable {s : Session} {sight : String → Sighting}

/-- The first regular file among some paths is found, if every path has been looked at. -/
theorem outcome_firstFile? (hfiles : ∀ path, s.files.at? path = some (sight path))
    (paths : List String) : (firstFile? paths).outcome s =
      .ok (paths.find? fun path => (sight path).isFile, s) := by
  induction paths with
  | nil => rfl
  | cons path paths ih =>
    have hlook : (Run.look path).outcome s = .ok (sight path, s) := by
      rw [Run.outcome_look, Files.look, hfiles]
    simp only [firstFile?, Run.outcome_bind, hlook, List.find?_cons]
    cases hfile : (sight path).isFile with
    | true => rfl
    | false => exact ih

/-- The paths of some spellings of a name: all of them in the working directory, and then all of
them in one script directory after the other. -/
def places (s : Session) (spellings : List Text) : List String :=
  ("" :: s.options.scriptDirs).flatMap fun directory =>
    spellings.map fun spelling => String.ofList (Path.join directory.toList spelling)

/-- **A script is the first regular file** under its name as given and its name with the extension
of scripts, in the working directory and then in each script directory, if its name is bare. For all
other names the second spelling is another one, in which the extension is exchanged for that of
scripts. -/
theorem outcome_findScript_first (hfiles : ∀ path, s.files.at? path = some (sight path))
    (name : String) :
    (Path.IsBare name.toList → (findScript name).outcome s =
      .ok ((s.places [name.toList, name.toList ++ ".cal".toList]).find?
        fun path => (sight path).isFile, s)) ∧
    (¬Path.IsBare name.toList → (findScript name).outcome s =
      .ok ((s.places [name.toList, Path.withExtension "cal".toList name.toList]).find?
        fun path => (sight path).isFile, s) ∧
      Path.withExtension "cal".toList name.toList ≠ name.toList ++ ".cal".toList) := by
  have hfirst : (findScript name).outcome s =
      .ok ((s.places [name.toList, Path.withExtension "cal".toList name.toList]).find?
        fun path => (sight path).isFile, s) := by
    rw [findScript, Run.outcome_bind, Run.outcome_get]
    exact outcome_firstFile? hfiles _
  have hbare : Path.withExtension "cal".toList name.toList = name.toList ++ ".cal".toList ↔
      Path.IsBare name.toList := Path.withExtension_eq_append_iff
  refine ⟨fun h => ?_, fun h => ⟨hfirst, fun heq => h (hbare.1 heq)⟩⟩
  rw [hfirst, hbare.2 h]

/-- A session in a directory with a script whose name has two dots. -/
def besideDotted : Session := start {} (FileTree.ofList [("a.b.cal", .file "")]).files

/-- A session with a script directory, in which a script stands. -/
def besideDirectory : Session :=
  start { scriptDirs := ["lib"] } (FileTree.ofList [("lib/go.cal", .file "")]).files

theorem outcome_findScript_first_directory :
    (∀ path, besideDirectory.files.at? path =
      some ((FileTree.ofList [("lib/go.cal", .file "")]).sighting path)) ∧
    Path.IsBare "go".toList ∧
    (findScript "go").outcome besideDirectory = .ok (some "lib/go.cal", besideDirectory) := by
  have hfiles (path : String) : besideDirectory.files.at? path =
      some ((FileTree.ofList [("lib/go.cal", .file "")]).sighting path) := rfl
  have hbare : Path.IsBare "go".toList := ⟨by decide, by decide, by decide⟩
  refine ⟨hfiles, hbare, ?_⟩
  rw [(outcome_findScript_first hfiles "go").1 hbare]
  have hfind : (besideDirectory.places ["go".toList, "go".toList ++ ".cal".toList]).find?
      (fun path => ((FileTree.ofList [("lib/go.cal", .file "")]).sighting path).isFile) =
        some "lib/go.cal" := by decide +kernel
  rw [hfind]

/-- A script whose name has a dot is not found under its name without the extension of scripts. -/
theorem outcome_findScript_dotted :
    (besideDotted.files.at? "a.b.cal").map Sighting.isFile = some true ∧
    (findScript "a.b").outcome besideDotted = .ok (none, besideDotted) := by
  have hfiles (path : String) : besideDotted.files.at? path =
      some ((FileTree.ofList [("a.b.cal", .file "")]).sighting path) := rfl
  have hfind : (besideDotted.candidates "a.b").find?
      (fun path => ((FileTree.ofList [("a.b.cal", .file "")]).sighting path).isFile) = none := by
    decide +kernel
  refine ⟨by decide +kernel, ?_⟩
  rw [findScript, Run.outcome_bind, Run.outcome_get]
  change (firstFile? (besideDotted.candidates "a.b")).outcome besideDotted = _
  rw [outcome_firstFile? hfiles, hfind]

end Session

end QuantityCalc
